import PrototypeNet.Daemon.BulkLoad
import PrototypeNet.Control.Freshness

/-!
# Passes over the whole table

`resolve_all` as one function: it goes through the rows it has fetched, asks
for each name again and writes a changed address first to the table and then
to the map.  Run on its own it keeps the two in step, whatever is answered and
wherever it has to stop; the single steps of the control plane add up to it.
The other pass over the table is the bulk load, which is why a restart repairs
any map.
-/

namespace PrototypeNet

open Fallible Runs UniqueKey

/-! ## `resolve_all` -/

structure Tables where
  domains : Domains
  natMap : NatMap

/-- What a pass meets outside: the answer for each name, and whether the
database refuses the fetch or the update of a row. -/
structure Outside where
  lookup : String → Upstream
  fetchFails : Bool
  updateFails : BitVec 32 → Bool

def insertNatEntry (domainId : BitVec 32) (origin : Ipv6Addr) :
    ExceptT String (StateM Tables) Unit := do
  let s ← get
  match s.natMap.insert domainId ⟨origin⟩ with
  | some natMap => set { s with natMap := natMap }
  | none => throw "failed to insert into NAT_MAP"

def updateOriginIpv6 (outside : Outside) (domainId : BitVec 32) (ip : Ipv6Addr) :
    ExceptT String (StateM Tables) Unit :=
  if outside.updateFails domainId then throw "failed to update origin_ipv6"
  else modify fun s ↦ { s with domains := s.domains.updateOrigin domainId ip }

def resolveRow (printsAlike : Ipv6Addr → Bool) (outside : Outside) (row : Row) :
    ExceptT String (StateM Tables) Unit :=
  match outside.lookup row.domain with
  | .found ip =>
      if originChanged printsAlike row ip then do
        updateOriginIpv6 outside row.domainId ip
        insertNatEntry row.domainId ip
      else pure ()
  | .noRecords => pure ()
  | .failed => pure ()

def resolveAll (printsAlike : Ipv6Addr → Bool) (outside : Outside) :
    ExceptT String (StateM Tables) Unit := do
  if outside.fetchFails then throw "failed to fetch domains for re-resolution"
  else do
    let s ← get
    forM s.domains.rows (resolveRow printsAlike outside)

/-! ## Table and map in step -/

def InStep (d : Domains) (m : NatMap) : Prop :=
  ∀ r ∈ d.rows, m.get r.domainId = some ⟨r.originIpv6⟩

/-- The row with the address that the pass has for its name. -/
def Row.retarget (outside : Outside) (row : Row) : Row :=
  match outside.lookup row.domain with
  | .found ip => { row with originIpv6 := ip }
  | _ => row

theorem eq_of_not_originChanged {printsAlike : Ipv6Addr → Bool} {row : Row} {ip : Ipv6Addr}
    (h : originChanged printsAlike row ip = false) : ip = row.originIpv6 := by
  simp only [originChanged, Bool.or_eq_false_iff, decide_eq_false_iff_not, not_not] at h
  exact h.1

/-- The update of one row and the insert that follows it. -/
theorem inStep_update {d : Domains} {m m' : NatMap} {row : Row} {ip : Ipv6Addr}
    (h : InStep d m) (hins : m.insert row.domainId ⟨ip⟩ = some m') :
    InStep (d.updateOrigin row.domainId ip) m' := by
  intro r hr
  rcases Domains.mem_updateOrigin hr with ⟨hr, hne⟩ | ⟨r₀, -, hid, rfl⟩
  · rw [BoundedMap.get_insert_of_ne hins hne, h r hr]
  · change m'.get r₀.domainId = _
    rw [hid, BoundedMap.get_insert_self hins]

section Pass

variable {printsAlike : Ipv6Addr → Bool} {outside : Outside} {row : Row} {ip : Ipv6Addr}
  {t : Tables}

theorem exec_resolveRow_of_changed (hlookup : outside.lookup row.domain = .found ip)
    (hchanged : originChanged printsAlike row ip = true) :
    exec (resolveRow printsAlike outside row) t =
      exec (updateOriginIpv6 outside row.domainId ip >>= fun _ ↦
        insertNatEntry row.domainId ip) t := by
  simp only [resolveRow, hlookup, if_pos hchanged]

theorem exec_resolveRow_of_refused (hlookup : outside.lookup row.domain = .found ip)
    (hchanged : originChanged printsAlike row ip = true)
    (hfails : outside.updateFails row.domainId = true) :
    exec (resolveRow printsAlike outside row) t = (.error "failed to update origin_ipv6", t) := by
  have hexec : exec (updateOriginIpv6 outside row.domainId ip) t =
      (.error "failed to update origin_ipv6", t) := by
    rw [updateOriginIpv6, if_pos hfails, exec_throw]
  rw [exec_resolveRow_of_changed hlookup hchanged, exec_bind_of_error hexec]

theorem exec_updateOriginIpv6 (hfails : outside.updateFails row.domainId = false) :
    exec (updateOriginIpv6 outside row.domainId ip) t =
      (.ok (), { t with domains := t.domains.updateOrigin row.domainId ip }) := by
  rw [updateOriginIpv6, if_neg (by simp [hfails])]
  exact exec_modify _ t

theorem exec_resolveRow_of_inserted {m' : NatMap}
    (hlookup : outside.lookup row.domain = .found ip)
    (hchanged : originChanged printsAlike row ip = true)
    (hfails : outside.updateFails row.domainId = false)
    (hins : t.natMap.insert row.domainId ⟨ip⟩ = some m') :
    exec (resolveRow printsAlike outside row) t =
      (.ok (), ⟨t.domains.updateOrigin row.domainId ip, m'⟩) := by
  rw [exec_resolveRow_of_changed hlookup hchanged,
    exec_bind_of_ok (exec_updateOriginIpv6 hfails), insertNatEntry, exec_bind_of_ok (exec_get _)]
  simp only [hins]
  exact exec_set _ _

/-- The table is written before the map is asked. -/
theorem exec_resolveRow_of_full (hlookup : outside.lookup row.domain = .found ip)
    (hchanged : originChanged printsAlike row ip = true)
    (hfails : outside.updateFails row.domainId = false)
    (hins : t.natMap.insert row.domainId ⟨ip⟩ = none) :
    exec (resolveRow printsAlike outside row) t =
      (.error "failed to insert into NAT_MAP",
        { t with domains := t.domains.updateOrigin row.domainId ip }) := by
  rw [exec_resolveRow_of_changed hlookup hchanged,
    exec_bind_of_ok (exec_updateOriginIpv6 hfails), insertNatEntry, exec_bind_of_ok (exec_get _)]
  simp only [hins]
  exact exec_throw _ _

/-- A row whose name has no address, or still the stored one. -/
theorem exec_resolveRow_of_unchanged
    (h : ∀ ip, outside.lookup row.domain = .found ip → originChanged printsAlike row ip = false) :
    exec (resolveRow printsAlike outside row) t = (.ok (), t) := by
  unfold resolveRow
  split
  · rename_i ip hlookup
    rw [if_neg (by simp [h ip hlookup]), exec_pure]
  · exact exec_pure _ t
  · exact exec_pure _ t

theorem retarget_of_unchanged
    (h : ∀ ip, outside.lookup row.domain = .found ip → originChanged printsAlike row ip = false) :
    row.retarget outside = row := by
  unfold Row.retarget
  split
  · rename_i ip hlookup
    rw [eq_of_not_originChanged (h ip hlookup)]
  · rfl

variable (printsAlike outside)

/-- One row, met with the table and the map in step: either its update is
refused and nothing has changed, or the row is retargeted and the two are in
step again.  The map cannot refuse the insert, since it knows the id. -/
theorem exec_resolveRow_cases {before rest : List Row}
    (hrows : t.domains.rows = before ++ row :: rest) (hstep : InStep t.domains t.natMap) :
    (exec (resolveRow printsAlike outside row) t =
        (.error "failed to update origin_ipv6", t) ∧ outside.updateFails row.domainId = true) ∨
      ∃ t', exec (resolveRow printsAlike outside row) t = (.ok (), t') ∧
        t'.domains.rows = before ++ row.retarget outside :: rest ∧
        InStep t'.domains t'.natMap := by
  by_cases hlookup : ∃ ip, outside.lookup row.domain = .found ip ∧
      originChanged printsAlike row ip = true
  · obtain ⟨ip, hlookup, hchanged⟩ := hlookup
    cases hfails : outside.updateFails row.domainId with
    | true => exact .inl ⟨exec_resolveRow_of_refused hlookup hchanged hfails, rfl⟩
    | false =>
        right
        obtain ⟨m', hins⟩ : ∃ m', t.natMap.insert row.domainId ⟨ip⟩ = some m' :=
          ⟨_, dif_pos (BoundedMap.accepts_of_get (hstep row (by simp [hrows])))⟩
        refine ⟨_, exec_resolveRow_of_inserted hlookup hchanged hfails hins, ?_,
          inStep_update hstep hins⟩
        have hunique := t.domains.uniqueDomainId
        rw [hrows] at hunique
        have htarget : row.retarget outside = { row with originIpv6 := ip } := by
          simp only [Row.retarget, hlookup]
        rw [htarget]
        change update Row.domainId t.domains.rows row.domainId _ = _
        rw [hrows, update_append_cons hunique]
  · have hsame : ∀ ip, outside.lookup row.domain = .found ip →
        originChanged printsAlike row ip = false := by
      intro ip hip
      exact Bool.eq_false_iff.mpr fun hchanged ↦ hlookup ⟨ip, hip, hchanged⟩
    refine .inr ⟨t, exec_resolveRow_of_unchanged hsame, ?_, hstep⟩
    rw [retarget_of_unchanged hsame, hrows]

/-- The loop over the rows behind `before`, by induction on how many are left. -/
theorem exec_resolveRows (before rest : List Row) {t : Tables}
    (hrows : t.domains.rows = before ++ rest) (hstep : InStep t.domains t.natMap) :
    ∃ r t' done left, exec (forM rest (resolveRow printsAlike outside)) t = (r, t') ∧
      rest = done ++ left ∧ t'.domains.rows = before ++ (done.map (Row.retarget outside) ++ left) ∧
      InStep t'.domains t'.natMap ∧
      (r = .ok () ∧ left = [] ∨ r = .error "failed to update origin_ipv6" ∧
        ∃ row ∈ left.head?, outside.updateFails row.domainId = true) := by
  induction rest generalizing before t with
  | nil => exact ⟨.ok (), t, [], [], rfl, rfl, hrows, hstep, .inl ⟨rfl, rfl⟩⟩
  | cons row rest ih =>
      rw [List.forM_cons]
      rcases exec_resolveRow_cases printsAlike outside hrows hstep with
        ⟨hexec, hfails⟩ | ⟨t₁, hexec, hrows₁, hstep₁⟩
      · rw [exec_bind_of_error hexec]
        exact ⟨_, t, [], row :: rest, rfl, rfl, hrows, hstep, .inr ⟨rfl, row, rfl, hfails⟩⟩
      · rw [exec_bind_of_ok hexec]
        obtain ⟨r, t', done, left, hrest, rfl, hrows', hstep', hend⟩ :=
          ih (before ++ [row.retarget outside]) (by rw [hrows₁]; simp) hstep₁
        refine ⟨r, t', row :: done, left, hrest, rfl, ?_, hstep', hend⟩
        rw [hrows', List.map_cons]
        simp

end Pass

/-! ## The resolver's steps add up to a pass -/

section ControlPlane

variable {printsAlike : Ipv6Addr → Bool} {outside : Outside}

/-- Steps of the resolver lead from the first state to the second. -/
def ByResolver (printsAlike : Ipv6Addr → Bool) (s s' : State) : Prop :=
  ∃ es : List ResolverEvent, play (step printsAlike) s (es.map .resolver) = some s'

theorem ByResolver.trans {s u s' : State} (h : ByResolver printsAlike s u)
    (h' : ByResolver printsAlike u s') : ByResolver printsAlike s s' := by
  obtain ⟨es, hes⟩ := h
  obtain ⟨es', hes'⟩ := h'
  exact ⟨es ++ es', by rw [List.map_append, play_append, hes, Option.bind_some, hes']⟩

/-- A state in which a pass has `rows` left, over these tables. -/
def State.passing (s : State) (t : Tables) (lookups : List (String × Ipv6Addr))
    (listener : Listener) (resolver : Resolver) : State :=
  { s with
    domains := t.domains
    natMap := t.natMap
    lookups := lookups
    daemon := .running listener resolver }

def afterRow (rows : List Row) : Except String Unit → Resolver
  | .ok _ => .pass rows
  | .error _ => .idle

theorem isSome_findById_updateOrigin {d : Domains} {i j : BitVec 32} (ip : Ipv6Addr)
    (h : (d.findById i).isSome = true) : ((d.updateOrigin j ip).findById i).isSome = true := by
  obtain ⟨r, hr⟩ := Option.isSome_iff_exists.mp h
  obtain ⟨hmem, rfl⟩ := Domains.mem_of_findById hr
  obtain ⟨r', hr', -, hid⟩ : ∃ r' ∈ (d.updateOrigin j ip).rows,
      r'.domain = r.domain ∧ r'.domainId = r.domainId :=
    Domains.mem_allocation_iff.mp ((Domains.commit_updateOrigin d j ip).allocation _ _
      (Domains.mem_allocation_iff.mpr ⟨r, hmem, rfl, rfl⟩))
  rw [← hid, Domains.findById_eq_some_of_mem hr']
  rfl

theorem exists_notify_running (listener : Listener) (resolver : Resolver) (i : BitVec 32) :
    ∃ listener', (Daemon.running listener resolver).notify i = .running listener' resolver := by
  rcases notify_cases (.running listener resolver) i with ⟨queue, handler, resolver', hd, h⟩ | h
  · cases hd
    exact ⟨_, h⟩
  · exact ⟨_, h⟩

/-- A changed address: the steps up to the map write. -/
theorem byResolver_update (s : State) {t : Tables} (lookups : List (String × Ipv6Addr))
    (listener : Listener) {row : Row} {ip : Ipv6Addr} (rows : List Row)
    (hrow : (t.domains.findById row.domainId).isSome = true)
    (hchanged : originChanged printsAlike row ip = true) :
    ∃ listener', ByResolver printsAlike (s.passing t lookups listener (.pass (row :: rows)))
      (s.passing ⟨t.domains.updateOrigin row.domainId ip, t.natMap⟩
        (lookups ++ [(row.domain, ip)]) listener' (.remap row.domainId ip rows)) := by
  obtain ⟨listener', hnotify⟩ :=
    exists_notify_running listener (.remap row.domainId ip rows) row.domainId
  refine ⟨listener', [.lookup (.found ip), .update], ?_⟩
  simp [play, step, resolverStep, State.passing, State.record, State.commit, hchanged, hrow,
    hnotify]

variable (printsAlike outside)

/-- Whatever `resolve_all` does to one row, the resolver's steps do. -/
theorem byResolver_row (s : State) (t : Tables) (lookups : List (String × Ipv6Addr))
    (listener : Listener) (row : Row) (rows : List Row)
    (hrow : (t.domains.findById row.domainId).isSome = true) :
    ∃ r t' lookups' listener', exec (resolveRow printsAlike outside row) t = (r, t') ∧
      (∀ i, (t.domains.findById i).isSome = true → (t'.domains.findById i).isSome = true) ∧
      ByResolver printsAlike (s.passing t lookups listener (.pass (row :: rows)))
        (s.passing t' lookups' listener' (afterRow rows r)) := by
  by_cases hlookup : ∃ ip, outside.lookup row.domain = .found ip ∧
      originChanged printsAlike row ip = true
  · obtain ⟨ip, hlookup, hchanged⟩ := hlookup
    cases hfails : outside.updateFails row.domainId with
    | true =>
        refine ⟨_, t, lookups ++ [(row.domain, ip)], listener,
          exec_resolveRow_of_refused hlookup hchanged hfails, fun _ h ↦ h,
          [.lookup (.found ip), .passError], ?_⟩
        simp [play, step, resolverStep, State.passing, State.record, hchanged, afterRow]
    | false =>
        obtain ⟨listener', hupdate⟩ := byResolver_update s lookups listener rows hrow hchanged
        have hkeep : ∀ i, (t.domains.findById i).isSome = true →
            ((t.domains.updateOrigin row.domainId ip).findById i).isSome = true :=
          fun i ↦ isSome_findById_updateOrigin ip
        cases hins : t.natMap.insert row.domainId ⟨ip⟩ with
        | some m' =>
            refine ⟨_, _, lookups ++ [(row.domain, ip)], listener',
              exec_resolveRow_of_inserted hlookup hchanged hfails hins, hkeep,
              hupdate.trans ⟨[.remap], ?_⟩⟩
            simp [play, step, resolverStep, State.passing, State.write, hins, afterRow]
        | none =>
            refine ⟨_, _, lookups ++ [(row.domain, ip)], listener',
              exec_resolveRow_of_full hlookup hchanged hfails hins, hkeep,
              hupdate.trans ⟨[.passError], ?_⟩⟩
            simp [play, step, resolverStep, State.passing, afterRow]
  · have hsame : ∀ ip, outside.lookup row.domain = .found ip →
        originChanged printsAlike row ip = false := by
      intro ip hip
      exact Bool.eq_false_iff.mpr fun hchanged ↦ hlookup ⟨ip, hip, hchanged⟩
    cases hip : outside.lookup row.domain with
    | found ip =>
        refine ⟨_, t, lookups ++ [(row.domain, ip)], listener,
          exec_resolveRow_of_unchanged hsame, fun _ h ↦ h, [.lookup (.found ip)], ?_⟩
        simp [play, step, resolverStep, State.passing, State.record, hsame ip hip, afterRow]
    | noRecords =>
        exact ⟨_, t, lookups, listener, exec_resolveRow_of_unchanged hsame, fun _ h ↦ h,
          [.lookup .noRecords], rfl⟩
    | failed =>
        exact ⟨_, t, lookups, listener, exec_resolveRow_of_unchanged hsame, fun _ h ↦ h,
          [.lookup .failed], rfl⟩

theorem byResolver_rows (s : State) (t : Tables) (lookups : List (String × Ipv6Addr))
    (listener : Listener) (rows : List Row)
    (hrows : ∀ row ∈ rows, (t.domains.findById row.domainId).isSome = true) :
    ∃ r t' lookups' listener', exec (forM rows (resolveRow printsAlike outside)) t = (r, t') ∧
      ByResolver printsAlike (s.passing t lookups listener (.pass rows))
        (s.passing t' lookups' listener' .idle) := by
  induction rows generalizing t lookups listener with
  | nil => exact ⟨.ok (), t, lookups, listener, rfl, [.passDone], rfl⟩
  | cons row rows ih =>
      obtain ⟨r, t₁, lookups₁, listener₁, hexec, hkeep, hrun⟩ :=
        byResolver_row printsAlike outside s t lookups listener row rows
          (hrows row List.mem_cons_self)
      rw [List.forM_cons]
      cases r with
      | ok u =>
          rw [exec_bind_of_ok hexec]
          obtain ⟨r, t', lookups', listener', hrest, hrun'⟩ := ih t₁ lookups₁ listener₁
            fun row hrow ↦ hkeep _ (hrows row (List.mem_cons_of_mem _ hrow))
          exact ⟨r, t', lookups', listener', hrest, hrun.trans hrun'⟩
      | error e =>
          rw [exec_bind_of_error hexec]
          exact ⟨_, t₁, lookups₁, listener₁, rfl, hrun⟩

/-- An undisturbed pass is a run of the control plane in which only the
resolver moves, from idle to idle. -/
theorem byResolver_resolveAll {t t' : Tables} {r : Except String Unit}
    (hexec : exec (resolveAll printsAlike outside) t = (r, t')) {s : State} {listener : Listener}
    (hdomains : s.domains = t.domains) (hnat : s.natMap = t.natMap)
    (hd : s.daemon = .running listener .idle) :
    ∃ lookups' listener', ByResolver printsAlike s (s.passing t' lookups' listener' .idle) := by
  have hself : s = s.passing t s.lookups listener .idle := by
    rw [State.passing, ← hd, ← hdomains, ← hnat]
  unfold resolveAll at hexec
  cases hfetch : outside.fetchFails with
  | true =>
      simp only [hfetch, if_true, exec_throw] at hexec
      cases hexec
      exact ⟨s.lookups, listener, [], by rw [← hself]; rfl⟩
  | false =>
      simp only [hfetch, Bool.false_eq_true, if_false] at hexec
      rw [exec_bind_of_ok (exec_get t)] at hexec
      obtain ⟨r', t'', lookups', listener', hexec', hrun⟩ :=
        byResolver_rows printsAlike outside s t s.lookups listener t.domains.rows fun row hrow ↦ by
          rw [Domains.findById_eq_some_of_mem hrow]
          rfl
      rw [hexec] at hexec'
      cases hexec'
      refine ⟨lookups', listener', ByResolver.trans ⟨[.tick], ?_⟩ hrun⟩
      simp [play, step, resolverStep, State.passing, hd, hdomains, hnat]

end ControlPlane

/-! ## A whole pass -/

/-- A pass of `resolve_all` that nothing disturbs, from a table and a map in
step: it leaves them in step, with the rows up to where it got retargeted and
the others as they were.  It gets through the whole table unless the database
refuses a statement.  In the control plane it is a run in which only the
resolver moves, from idle to idle. -/
theorem resolve_all_keeps_step (printsAlike : Ipv6Addr → Bool) (outside : Outside) (t : Tables)
    (h : InStep t.domains t.natMap) :
    ∃ r t' done left, exec (resolveAll printsAlike outside) t = (r, t') ∧
      t.domains.rows = done ++ left ∧
      t'.domains.rows = done.map (Row.retarget outside) ++ left ∧
      InStep t'.domains t'.natMap ∧
      (r = .ok () ∧ left = [] ∨
        r = .error "failed to update origin_ipv6" ∧
          (∃ row ∈ left.head?, outside.updateFails row.domainId = true) ∨
        r = .error "failed to fetch domains for re-resolution" ∧ outside.fetchFails = true ∧
          done = []) ∧
      ∀ (s : State) (listener : Listener), s.domains = t.domains → s.natMap = t.natMap →
        s.daemon = .running listener .idle →
        ∃ lookups' listener', ByResolver printsAlike s (s.passing t' lookups' listener' .idle) := by
  cases hfetch : outside.fetchFails with
  | true =>
      have hexec : exec (resolveAll printsAlike outside) t =
          (.error "failed to fetch domains for re-resolution", t) := by
        simp [resolveAll, hfetch]
      exact ⟨_, t, [], t.domains.rows, hexec, rfl, rfl, h, .inr (.inr ⟨rfl, rfl, rfl⟩),
        fun s listener ↦ byResolver_resolveAll printsAlike outside hexec⟩
  | false =>
      obtain ⟨r, t', done, left, hrowsExec, hsplit, hrows, hstep, hend⟩ :=
        exec_resolveRows printsAlike outside [] t.domains.rows rfl h
      have hexec : exec (resolveAll printsAlike outside) t = (r, t') := by
        simp only [resolveAll, hfetch, Bool.false_eq_true, if_false]
        rw [exec_bind_of_ok (exec_get t), hrowsExec]
      refine ⟨r, t', done, left, hexec, hsplit, hrows, hstep, ?_,
        fun s listener ↦ byResolver_resolveAll printsAlike outside hexec⟩
      rcases hend with hok | herr
      · exact .inl hok
      · exact .inr (.inl herr)

/-- One row moves and one keeps its address; the database works. -/
def demoOutside : Outside where
  lookup := fun name ↦ if name = "a" then .found (Vector.replicate 16 3) else .failed
  fetchFails := false
  updateFails := fun _ ↦ false

theorem retarget_demoOutside (row : Row) : (row.retarget demoOutside).originIpv6 =
    if row.domain = "a" then Vector.replicate 16 3 else row.originIpv6 := by
  simp only [Row.retarget, demoOutside]
  split_ifs <;> rfl

theorem resolve_all_keeps_step_demo :
    ∃ t t' : Tables, t.domains.rows.map (fun r ↦ (r.domain, r.originIpv6)) =
        [("a", Vector.replicate 16 1), ("b", Vector.replicate 16 2)] ∧
      exec (resolveAll (fun _ ↦ true) demoOutside) t = (.ok (), t') ∧
      t'.domains.rows.map Row.originIpv6 = [Vector.replicate 16 3, Vector.replicate 16 2] ∧
      InStep t'.domains t'.natMap := by
  have hrun : (play (step fun _ ↦ true) (.init 0) quietRun).map
      (fun s ↦ (s.domains.rows.map (fun r ↦ (r.domain, r.originIpv6)),
        s.domains.rows.all fun r ↦ s.natMap.get r.domainId = some ⟨r.originIpv6⟩)) =
      some ([("a", Vector.replicate 16 1), ("b", Vector.replicate 16 2)], true) := by
    decide +kernel
  obtain ⟨s, -, hsome⟩ := Option.map_eq_some_iff.mp hrun
  obtain ⟨hrows, hsync⟩ := Prod.mk.inj hsome
  have hstep : InStep s.domains s.natMap := by
    intro r hr
    exact of_decide_eq_true (List.all_eq_true.mp hsync r hr)
  obtain ⟨r, t', done, left, hexec, hsplit, hrows', hstep', hend, -⟩ :=
    resolve_all_keeps_step (fun _ ↦ true) demoOutside ⟨s.domains, s.natMap⟩ hstep
  rcases hend with ⟨rfl, rfl⟩ | ⟨-, row, -, hfails⟩ | ⟨-, hfails, -⟩
  · refine ⟨⟨s.domains, s.natMap⟩, t', hrows, hexec, ?_, hstep'⟩
    have htarget : t'.domains.rows.map Row.originIpv6 =
        (s.domains.rows.map fun r ↦ (r.domain, r.originIpv6)).map
          fun p ↦ if p.1 = "a" then Vector.replicate 16 3 else p.2 := by
      rw [hrows', List.append_nil, hsplit, List.append_nil, List.map_map, List.map_map]
      exact List.map_congr_left fun row _ ↦ retarget_demoOutside row
    rw [htarget, hrows]
    decide
  · cases hfails
  · cases hfails

/-! ## A restart -/

/-- A start of the daemon up to its first `LISTEN`, over a table of `n` rows. -/
def startEvents (n : ℕ) : List Event :=
  [.main .start, .main .select] ++ (List.replicate n (.main .load) ++
    [.main .spawn, .listener .listen])

/-- A restart that nothing disturbs repairs any map.  Whatever state the daemon
was in and whatever its map held, afterwards the map is the table, without
leftovers, and the daemon listens; only a table beyond the map's capacity
prevents it. -/
theorem restart_repairs_map (printsAlike : Ipv6Addr → Bool) (s : State)
    (h : s.domains.rows.length ≤ 65536) :
    ∃ s', play (step printsAlike) s (startEvents s.domains.rows.length) = some s' ∧
      s'.domains = s.domains ∧ s'.tasks = s.tasks ∧
      s'.daemon = .running ⟨some [], .idle⟩ .idle ∧
      (∀ i, s'.natMap.get i = (s.domains.findById i).map fun row ↦ ⟨row.originIpv6⟩) ∧
      s'.natMap.size = s.domains.rows.length := by
  obtain ⟨m', hexec, hsize, hget⟩ := exec_rows_of_room s.domains.rows .empty
    s.domains.uniqueDomainId (fun r _ ↦ BoundedMap.get_empty _)
    (by rw [BoundedMap.size_empty]; omega)
  have hload := play_load_of_exec printsAlike (s := { s with natMap := .empty }) hexec
  refine ⟨{ s with natMap := m', daemon := .running ⟨some [], .idle⟩ .idle }, ?_, rfl, rfl, rfl,
    ?_, ?_⟩
  · have hselect : play (step printsAlike) s [.main .start, .main .select] =
        some { s with natMap := .empty, daemon := .loading s.domains.rows } := rfl
    rw [startEvents, play_append, hselect, Option.bind_some, play_append]
    rw [hload, Option.bind_some]
    rfl
  · intro i
    rw [hget i, BoundedMap.get_empty, Option.or_none]
    rfl
  · rw [hsize, BoundedMap.size_empty, Nat.zero_add]

/-- The state that a lost connection has left behind: two rows, none of them in
the map. -/
theorem restart_repairs_map_gap :
    ∃ s s', play (step fun _ ↦ true) (.init 0) gapRun = some s ∧
      play (step fun _ ↦ true) s (startEvents 2) = some s' ∧
      s.natMap.get 1 = none ∧ s'.natMap.get 1 = some ⟨Vector.replicate 16 1⟩ := by
  have hrun : (play (step fun _ ↦ true) (.init 0) gapRun).map
      (fun s ↦ (s.domains.rows.length, s.natMap.get 1,
        (s.domains.findById 1).map Row.originIpv6)) =
      some (2, none, some (Vector.replicate 16 1)) := by
    decide +kernel
  obtain ⟨s, hs, hsome⟩ := Option.map_eq_some_iff.mp hrun
  obtain ⟨hlen, hrest⟩ := Prod.mk.inj hsome
  obtain ⟨hnone, hrow⟩ := Prod.mk.inj hrest
  obtain ⟨s', hplay, -, -, -, hget, -⟩ :=
    restart_repairs_map (fun _ ↦ true) s (by rw [hlen]; norm_num)
  rw [hlen] at hplay
  refine ⟨s, s', hs, hplay, hnone, ?_⟩
  obtain ⟨row, hid, horigin⟩ := Option.map_eq_some_iff.mp hrow
  rw [hget 1, hid, ← horigin, Option.map_some]

end PrototypeNet
