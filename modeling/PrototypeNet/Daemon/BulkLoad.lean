import PrototypeNet.Lib.Fallible
import PrototypeNet.Control.System

/-!
# The bulk load

`bulk_load_from_db` inserts the rows it has fetched one by one and gives up at
the first insert that the map refuses, leaving what it has inserted.  The
single steps of the control plane add up to it.  The map takes fewer domains
than the table can get, and the DNS server adds rows without looking at the
map.
-/

namespace PrototypeNet

open Fallible Runs UniqueKey

/-! ## The function -/

def insertRow (row : Row) : ExceptT String (StateM NatMap) Unit := do
  match (← get).insert row.domainId ⟨row.originIpv6⟩ with
  | some natMap => set natMap
  | none => throw "failed to insert into NAT_MAP during bulk load"

def bulkLoadFromDb (rows : List Row) : ExceptT String (StateM NatMap) ℕ := do
  let count := rows.length
  forM rows insertRow
  return count

theorem exec_insertRow_of_some {row : Row} {m m' : NatMap}
    (h : m.insert row.domainId ⟨row.originIpv6⟩ = some m') :
    exec (insertRow row) m = (.ok (), m') := by
  rw [insertRow, exec_bind_of_ok (exec_get m), h]
  exact exec_set m' m

theorem exec_insertRow_of_none {row : Row} {m : NatMap}
    (h : m.insert row.domainId ⟨row.originIpv6⟩ = none) :
    exec (insertRow row) m = (.error "failed to insert into NAT_MAP during bulk load", m) := by
  rw [insertRow, exec_bind_of_ok (exec_get m), h]
  exact exec_throw _ m

/-! ## How far the loop gets -/

def natEntry (row : Row) : NatEntry :=
  ⟨row.originIpv6⟩

/-- The rows that follow an insert are still new to the map and to each other. -/
theorem fresh_tail {row : Row} {rows : List Row} {m m' : NatMap}
    (hunique : Unique Row.domainId (row :: rows))
    (hfresh : ∀ r ∈ row :: rows, m.get r.domainId = none)
    (h : m.insert row.domainId ⟨row.originIpv6⟩ = some m') :
    Unique Row.domainId rows ∧ ∀ r ∈ rows, m'.get r.domainId = none := by
  obtain ⟨hnot, hrows⟩ := List.nodup_cons.mp hunique
  refine ⟨hrows, ?_⟩
  intro r hr
  have hne : r.domainId ≠ row.domainId := by
    intro heq
    exact hnot (heq ▸ List.mem_map_of_mem hr)
  rw [BoundedMap.get_insert_of_ne h hne, hfresh r (List.mem_cons_of_mem _ hr)]

theorem exec_rows_of_room (rows : List Row) (m : NatMap) (hunique : Unique Row.domainId rows)
    (hfresh : ∀ r ∈ rows, m.get r.domainId = none) (hroom : m.size + rows.length ≤ 65536) :
    ∃ m', exec (forM rows insertRow) m = (.ok (), m') ∧ m'.size = m.size + rows.length ∧
      ∀ i, m'.get i = ((lookup Row.domainId rows i).map natEntry).or (m.get i) := by
  induction rows generalizing m with
  | nil => exact ⟨m, rfl, rfl, fun _ ↦ rfl⟩
  | cons row rows ih =>
      rw [List.length_cons] at hroom
      obtain ⟨m₁, hins⟩ :=
        BoundedMap.insert_of_size_lt (m := m) row.domainId ⟨row.originIpv6⟩ (by omega)
      obtain ⟨hunique₁, hfresh₁⟩ := fresh_tail hunique hfresh hins
      have hsize₁ := BoundedMap.size_insert_of_new hins (hfresh row List.mem_cons_self)
      obtain ⟨m', hexec, hsize, hget⟩ := ih m₁ hunique₁ hfresh₁ (by omega)
      refine ⟨m', ?_, by rw [hsize, hsize₁, List.length_cons]; omega, ?_⟩
      · rw [List.forM_cons, exec_bind_of_ok (exec_insertRow_of_some hins), hexec]
      · intro i
        rw [hget i, BoundedMap.get_insert hins i]
        by_cases hi : i = row.domainId
        · -- The row's own id, which no later row has.
          have hnone : lookup Row.domainId rows i = none := by
            rw [lookup, List.find?_eq_none]
            intro r hr heq
            have hsome := hfresh₁ r hr
            rw [of_decide_eq_true heq, hi, BoundedMap.get_insert_self hins] at hsome
            cases hsome
          rw [hnone, if_pos hi, lookup, List.find?_cons_of_pos (by simp [hi])]
          rfl
        · rw [if_neg hi, lookup, lookup,
            List.find?_cons_of_neg (by simpa using fun h ↦ hi h.symm)]

theorem exec_rows_of_overflow (rows : List Row) (m : NatMap)
    (hunique : Unique Row.domainId rows) (hfresh : ∀ r ∈ rows, m.get r.domainId = none)
    (hfull : 65536 < m.size + rows.length) :
    ∃ m', exec (forM rows insertRow) m =
      (.error "failed to insert into NAT_MAP during bulk load", m') ∧ m'.size = 65536 := by
  induction rows generalizing m with
  | nil =>
      have hbound : m.size ≤ 65536 := m.bounded
      rw [List.length_nil] at hfull
      omega
  | cons row rows ih =>
      by_cases hsize : m.size < 65536
      · obtain ⟨m₁, hins⟩ :=
          BoundedMap.insert_of_size_lt (m := m) row.domainId ⟨row.originIpv6⟩ hsize
        obtain ⟨hunique₁, hfresh₁⟩ := fresh_tail hunique hfresh hins
        have hsize₁ := BoundedMap.size_insert_of_new hins (hfresh row List.mem_cons_self)
        rw [List.length_cons] at hfull
        obtain ⟨m', hexec, hsize'⟩ := ih m₁ hunique₁ hfresh₁ (by omega)
        refine ⟨m', ?_, hsize'⟩
        rw [List.forM_cons, exec_bind_of_ok (exec_insertRow_of_some hins), hexec]
      · have hbound : m.size ≤ 65536 := m.bounded
        have hins : m.insert row.domainId ⟨row.originIpv6⟩ = none :=
          BoundedMap.insert_of_full (hfresh row List.mem_cons_self) (by omega)
        refine ⟨m, ?_, by omega⟩
        rw [List.forM_cons, exec_bind_of_error (exec_insertRow_of_none hins)]

theorem exec_bulkLoadFromDb_of_ok {rows : List Row} {m m' : NatMap}
    (h : exec (forM rows insertRow) m = (.ok (), m')) :
    exec (bulkLoadFromDb rows) m = (.ok rows.length, m') := by
  rw [bulkLoadFromDb, exec_bind_of_ok h]
  exact exec_pure _ m'

theorem exec_bulkLoadFromDb_of_error {rows : List Row} {m m' : NatMap} {e : String}
    (h : exec (forM rows insertRow) m = (.error e, m')) :
    exec (bulkLoadFromDb rows) m = (.error e, m') := by
  rw [bulkLoadFromDb, exec_bind_of_error h]

/-! ## The load steps of the control plane -/

section ControlPlane

variable (printsAlike : Ipv6Addr → Bool)

theorem insert_of_exec_insertRow {row : Row} {m m' : NatMap}
    (h : exec (insertRow row) m = (.ok (), m')) :
    m.insert row.domainId ⟨row.originIpv6⟩ = some m' := by
  cases hins : m.insert row.domainId ⟨row.originIpv6⟩ with
  | none =>
      rw [exec_insertRow_of_none hins] at h
      cases h
  | some m₁ =>
      rw [exec_insertRow_of_some hins] at h
      cases h
      rfl

/-- A loop that gets through is a run of single load steps. -/
theorem play_load_of_exec {rows : List Row} {s : State} {m' : NatMap}
    (h : exec (forM rows insertRow) s.natMap = (.ok (), m')) :
    play (step printsAlike) { s with daemon := .loading rows }
        (List.replicate rows.length (.main .load)) =
      some { s with natMap := m', daemon := .loading [] } := by
  induction rows generalizing s with
  | nil =>
      cases h
      rfl
  | cons row rows ih =>
      rw [List.forM_cons] at h
      rcases exec_cases (insertRow row) s.natMap with ⟨u, m₁, hrow⟩ | ⟨e, m₁, hrow⟩
      · rw [exec_bind_of_ok hrow] at h
        have hstep : step printsAlike { s with daemon := .loading (row :: rows) } (.main .load) =
            some { s with natMap := m₁, daemon := .loading rows } := by
          simp only [step, mainStep, State.write, insert_of_exec_insertRow hrow, Option.map_some]
        rw [List.length_cons, List.replicate_succ, play, hstep]
        exact ih (s := { s with natMap := m₁ }) h
      · rw [exec_bind_of_error hrow] at h
        cases h

/-! ## Tables of any size -/

/-- A query for a new name, served without interruption. -/
def serveNew (n : ℕ) (name : String) (ip : Ipv6Addr) : List Event :=
  [.query name, .dns n .findByDomain, .dns n (.lookupAaaa (.found ip)), .dns n .nextDomainId,
    .dns n .insertDomain]

theorem insertDomain_of_new {d : Domains} {i : BitVec 32} {domain : String}
    (hd : d.findByDomain domain = none) (hi : d.findById i = none) (origin synthetic : Ipv6Addr)
    (ttl : BitVec 32) :
    ∃ d', d.insertDomain i domain origin synthetic ttl = some (d', i, synthetic) ∧
      d'.rows = d.rows ++ [⟨i, domain, origin, synthetic, some ttl⟩] := by
  unfold Domains.insertDomain
  split
  · rename_i r hr
    rw [hd] at hr
    cases hr
  · exact ⟨_, dif_pos hi, rfl⟩

theorem play_serveNew (s : State) (name : String) (ip : Ipv6Addr)
    (hseq : s.lastValue + 1 < 2 ^ 63) (hname : s.domains.findByDomain (normalize name) = none)
    (hid : s.domains.findById (BitVec.ofNat 32 (s.lastValue + 1)) = none) :
    ∃ s', play (step printsAlike) s (serveNew s.tasks.length name ip) = some s' ∧
      s'.tasks.length = s.tasks.length + 1 ∧ s'.lastValue = s.lastValue + 1 ∧
      ∃ r : Row, s'.domains.rows = s.domains.rows ++ [r] ∧ r.domain = normalize name ∧
        r.domainId = BitVec.ofNat 32 (s.lastValue + 1) := by
  obtain ⟨d', hins, hrows⟩ := insertDomain_of_new hname hid ip
    (syntheticIpv6 (BitVec.ofNat 32 (s.lastValue + 1))) 300#32
  have hseq' : nextval s.lastValue = some (s.lastValue + 1) := if_pos hseq
  simp [serveNew, play, step, dnsStep, Task.domain, State.setPc, State.record, State.setSeq,
    State.commit, hname, hseq', hins, hrows]

/-- One label of 32 letters for each id. -/
def nthName (j : ℕ) : String :=
  String.ofList ((List.range 32).map (fun i ↦ if j.testBit i then 'b' else 'a') ++
    ['.', 'e', 'x', 'a', 'm', 'p', 'l', 'e'])

theorem normalize_nthName (j : ℕ) : normalize (nthName j) = nthName j := by
  have hlower : ∀ i, (if j.testBit i then 'b' else 'a').toLower =
      if j.testBit i then 'b' else 'a' := by
    intro i
    split <;> rfl
  have hlast : ∀ l : List Char, ((l ++ ['.', 'e', 'x', 'a', 'm', 'p', 'l', 'e']).reverse.dropWhile
      (· = '.')).reverse = l ++ ['.', 'e', 'x', 'a', 'm', 'p', 'l', 'e'] := by
    intro l
    rw [List.reverse_append]
    simp
  rw [normalize, nthName, String.toList_ofList, hlast, List.map_append, List.map_map]
  simp only [Function.comp_def, hlower]
  rfl

theorem eq_of_nthName {j k : ℕ} (hj : j < 2 ^ 32) (hk : k < 2 ^ 32) (h : nthName j = nthName k) :
    j = k := by
  have hbits := List.append_cancel_right (String.ofList_injective h)
  apply Nat.eq_of_testBit_eq
  intro i
  by_cases hi : i < 32
  · have hletter := List.map_inj_left.mp hbits i (List.mem_range.mpr hi)
    cases hji : j.testBit i <;> cases hki : k.testBit i <;> simp_all
  · have hpow : 2 ^ 32 ≤ 2 ^ i := Nat.pow_le_pow_right (by norm_num) (by omega)
    rw [Nat.testBit_lt_two_pow (by omega), Nat.testBit_lt_two_pow (by omega)]

/-- What the table looks like after `k` queries for new names. -/
def Served (k : ℕ) (s : State) : Prop :=
  s.tasks.length = k ∧ s.lastValue = k ∧ s.domains.rows.length = k ∧
    ∀ r ∈ s.domains.rows, ∃ j < k, r.domain = nthName j ∧ r.domainId = BitVec.ofNat 32 (j + 1)

theorem served_succ {k : ℕ} {s : State} (hk : k + 1 < 2 ^ 32) (h : Served k s) :
    ∃ s', play (step printsAlike) s (serveNew k (nthName k) (Vector.replicate 16 1)) = some s' ∧
      Served (k + 1) s' := by
  obtain ⟨htasks, hlast, hlen, hrows⟩ := h
  have hname : s.domains.findByDomain (normalize (nthName k)) = none := by
    rw [normalize_nthName, Domains.findByDomain, lookup, List.find?_eq_none]
    intro r hr heq
    obtain ⟨j, hj, hdomain, -⟩ := hrows r hr
    have := eq_of_nthName (by omega) (by omega) (hdomain.symm.trans (of_decide_eq_true heq))
    omega
  have hid : s.domains.findById (BitVec.ofNat 32 (s.lastValue + 1)) = none := by
    rw [hlast, Domains.findById, lookup, List.find?_eq_none]
    intro r hr heq
    obtain ⟨j, hj, -, hjd⟩ := hrows r hr
    have hnat := congrArg BitVec.toNat (hjd.symm.trans (of_decide_eq_true heq))
    rw [BitVec.toNat_ofNat, BitVec.toNat_ofNat, Nat.mod_eq_of_lt (by omega),
      Nat.mod_eq_of_lt hk] at hnat
    omega
  obtain ⟨s', hplay, htasks', hlast', r, hrows', hdomain, hrid⟩ :=
    play_serveNew printsAlike s (nthName k) (Vector.replicate 16 1)
      (by rw [hlast]; omega) hname hid
  rw [htasks] at hplay htasks'
  rw [hlast] at hlast' hrid
  rw [normalize_nthName] at hdomain
  refine ⟨s', hplay, htasks', hlast', by rw [hrows', List.length_append, hlen]; rfl, ?_⟩
  intro r' hr'
  rw [hrows'] at hr'
  rcases List.mem_append.mp hr' with hold | hnew
  · obtain ⟨j, hj, hfields⟩ := hrows r' hold
    exact ⟨j, by omega, hfields⟩
  · rw [List.mem_singleton.mp hnew]
    exact ⟨k, by omega, hdomain, hrid⟩

/-- Queries alone make the table as long as there are ids. -/
theorem exists_play_served (k : ℕ) (hk : k < 2 ^ 32) :
    ∃ es s, play (step printsAlike) (State.init 0) es = some s ∧ Served k s := by
  induction k with
  | zero =>
      refine ⟨[], State.init 0, rfl, rfl, rfl, rfl, ?_⟩
      intro r hr
      cases hr
  | succ k ih =>
      obtain ⟨es, s, hplay, hserved⟩ := ih (by omega)
      obtain ⟨s', hnext, hserved'⟩ := served_succ printsAlike hk hserved
      refine ⟨es ++ serveNew k (nthName k) (Vector.replicate 16 1), s', ?_, hserved'⟩
      rw [play_append, hplay, Option.bind_some, hnext]

end ControlPlane

/-! ## The whole table -/

/-- Started on an empty map, the bulk load installs the table and nothing else
exactly if the table is no larger than the map. -/
theorem bulk_load_installs_table_iff (d : Domains) :
    (∃ natMap : NatMap, exec (bulkLoadFromDb d.rows) .empty = (.ok d.rows.length, natMap) ∧
      natMap.size = d.rows.length ∧
      ∀ i, natMap.get i = (d.findById i).map fun row ↦ ⟨row.originIpv6⟩) ↔
    d.rows.length ≤ 65536 := by
  have hfresh : ∀ r ∈ d.rows, (BoundedMap.empty : NatMap).get r.domainId = none :=
    fun r _ ↦ BoundedMap.get_empty _
  constructor
  · rintro ⟨natMap, -, hsize, -⟩
    rw [← hsize]
    exact natMap.bounded
  · intro hlen
    obtain ⟨m', hexec, hsize, hget⟩ := exec_rows_of_room d.rows .empty d.uniqueDomainId hfresh
      (by rw [BoundedMap.size_empty]; omega)
    refine ⟨m', exec_bulkLoadFromDb_of_ok hexec, ?_, ?_⟩
    · rw [hsize, BoundedMap.size_empty, Nat.zero_add]
    · intro i
      rw [hget i, BoundedMap.get_empty, Option.or_none]
      rfl

/-- After 65537 queries for different names a daemon cannot start any more: its
bulk load fills the map and fails at the last row. -/
theorem bulk_load_fails_beyond_capacity :
    ∃ es s, play (step fun _ ↦ true) (State.init 0) es = some s ∧
      s.domains.rows.length = 65537 ∧
      ∃ natMap : NatMap, exec (bulkLoadFromDb s.domains.rows) .empty =
        (.error "failed to insert into NAT_MAP during bulk load", natMap) ∧
          natMap.size = 65536 := by
  obtain ⟨es, s, hplay, -, -, hlen, -⟩ :=
    exists_play_served (fun _ ↦ true) 65537 (by norm_num)
  obtain ⟨m', hexec, hsize⟩ := exec_rows_of_overflow s.domains.rows .empty
    s.domains.uniqueDomainId (fun r _ ↦ BoundedMap.get_empty _)
    (by rw [hlen, BoundedMap.size_empty]; norm_num)
  exact ⟨es, s, hplay, hlen, m', exec_bulkLoadFromDb_of_error hexec, hsize⟩

end PrototypeNet
