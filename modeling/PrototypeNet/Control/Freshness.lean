import PrototypeNet.Lib.Follower
import PrototypeNet.Control.Allocation

/-!
# `NAT_MAP` follows the table

The daemon keeps `NAT_MAP` as a copy of the stored origins.  It snapshots the
table before it listens, it loses what happens while it does not listen, and
its resolver writes to the map behind the back of the listener.  So the copy is
complete and current only along runs that avoid these three gaps; `KeepsUp`
says exactly what has to be avoided at each step, and the last two sections
exhibit runs through the gaps.
-/

namespace PrototypeNet

open Runs Follower

/-! ## The copy and its source -/

def Daemon.queued : Daemon → List (BitVec 32)
  | .running listener _ => listener.queue.getD []
  | _ => []

def Daemon.fetching : Daemon → List (BitVec 32)
  | .running ⟨_, .fetch domainId⟩ _ => [domainId]
  | _ => []

/-- Rows that the listener is still going to read. -/
def Daemon.unhandled (d : Daemon) : List (BitVec 32) :=
  d.fetching ++ d.queued

def Daemon.loaded : Daemon → Bool
  | .down => false
  | .starting => false
  | .loading _ => true
  | .running _ _ => true

/-- Whether a commit that happens now will be seen: by the bulk load still to
come or by the listener. -/
def Daemon.follows : Daemon → Bool
  | .down => true
  | .starting => true
  | .loading _ => false
  | .running listener _ => listener.queue.isSome

def viewOf (domains : Domains) (natMap : NatMap) (daemon : Daemon) :
    View (BitVec 32) Ipv6Addr where
  source i := (domains.findById i).map Row.originIpv6
  copy i := (natMap.get i).map NatEntry.originIpv6
  notices := {i | i ∈ daemon.unhandled}
  writes := {p | p ∈ daemon.writes}

def State.view (s : State) : View (BitVec 32) Ipv6Addr :=
  viewOf s.domains s.natMap s.daemon

-- The instances below name the decision procedures for bounded quantifiers: left
-- to itself, instance search enumerates all ids or all addresses.
instance (s : State) (i : BitVec 32) (o : Ipv6Addr) : Decidable (s.view.Settled i o) :=
  have : Decidable (∀ p ∈ s.daemon.writes, p.1 = i → p.2 = o) := List.decidableBAll _ _
  inferInstanceAs (Decidable ((∀ p ∈ s.daemon.writes, p.1 = i → p.2 = o) ∧
    ((i, o) ∈ s.daemon.writes ∨ (s.natMap.get i).map NatEntry.originIpv6 = some o)))

theorem source_eq_some_iff {s : State} {i : BitVec 32} {o : Ipv6Addr} :
    s.view.source i = some o ↔ ∃ r ∈ s.domains.rows, r.domainId = i ∧ r.originIpv6 = o := by
  change (s.domains.findById i).map Row.originIpv6 = some o ↔ _
  rw [Option.map_eq_some_iff]
  constructor
  · rintro ⟨r, hr, rfl⟩
    obtain ⟨hmem, hid⟩ := Domains.mem_of_findById hr
    exact ⟨r, hmem, hid, rfl⟩
  · rintro ⟨r, hr, rfl, rfl⟩
    exact ⟨r, Domains.findById_eq_some_of_mem hr, rfl⟩

/-- From the bulk load on, the map tracks the table. -/
def State.Tracked (s : State) : Prop :=
  s.daemon.loaded = true → s.view.Tracks

theorem State.Tracked.tracks {s : State} (h : s.Tracked) {d : Daemon} (hd : s.daemon = d)
    (hl : d.loaded = true) : (viewOf s.domains s.natMap d).Tracks := by
  subst hd
  exact h hl

/-! ## What has to be avoided -/

def State.commits (s : State) : Event → Option (BitVec 32 × Ipv6Addr)
  | .dns n .insertDomain =>
      match s.tasks[n]? with
      | some ⟨name, .insertDomain origin domainId⟩ =>
          (s.domains.insertDomain domainId (normalize name) origin (syntheticIpv6 domainId)
            300).map fun stored ↦ (stored.2.1, origin)
      | _ => none
  | .resolver .update =>
      match s.daemon.resolver with
      | .update domainId ip _ => (s.domains.findById domainId).map fun _ ↦ (domainId, ip)
      | _ => none
  | _ => none

def State.loses (s : State) : Event → List (BitVec 32)
  | .listener .disconnect => s.daemon.queued
  | .listener .fetchError => s.daemon.unhandled
  | _ => []

def State.remaps (s : State) : Event → Option (BitVec 32 × Ipv6Addr)
  | .resolver .remap =>
      match s.daemon.resolver with
      | .remap domainId ip _ => some (domainId, ip)
      | _ => none
  | _ => none

/-- A commit is followed, or it leaves the stored origin as it is. -/
def State.CommitsFollowed (s : State) (e : Event) : Prop :=
  ∀ p ∈ s.commits e, s.daemon.follows = true ∨ s.view.source p.1 = some p.2

/-- A notification is lost only if the row is in the map already. -/
def State.LosesSettled (s : State) (e : Event) : Prop :=
  ∀ i ∈ s.loses e, ∀ o ∈ s.view.source i, s.view.Settled i o

/-- The resolver does not overwrite the map with an origin that has been
replaced since, unless the listener has still to write the current one. -/
def State.RemapsCurrent (s : State) (e : Event) : Prop :=
  ∀ p ∈ s.remaps e, ∀ o ∈ s.view.source p.1,
    o = p.2 ∨ p.1 ∈ s.daemon.unhandled ∨ (p.1, o) ∈ s.daemon.writes

instance (s : State) (e : Event) : Decidable (s.CommitsFollowed e) :=
  have (p : BitVec 32 × Ipv6Addr) : Decidable (s.view.source p.1 = some p.2) :=
    inferInstanceAs (Decidable ((s.domains.findById p.1).map Row.originIpv6 = some p.2))
  Option.decidableForallMem _

instance (s : State) (e : Event) : Decidable (s.LosesSettled e) :=
  have (i : BitVec 32) : Decidable (∀ o ∈ s.view.source i, s.view.Settled i o) :=
    Option.decidableForallMem _
  List.decidableBAll _ _

instance (s : State) (e : Event) : Decidable (s.RemapsCurrent e) :=
  have (p : BitVec 32 × Ipv6Addr) : Decidable (∀ o ∈ s.view.source p.1,
      o = p.2 ∨ p.1 ∈ s.daemon.unhandled ∨ (p.1, o) ∈ s.daemon.writes) :=
    Option.decidableForallMem _
  Option.decidableForallMem _

/-- A step after which the map still tracks the table; a map insert of the
listener must not fail either. -/
structure KeepsUp (s : State) (e : Event) : Prop where
  commits : s.CommitsFollowed e
  losses : s.LosesSettled e
  inserts : e ≠ .listener .storeError
  remaps : s.RemapsCurrent e

instance (s : State) (e : Event) : Decidable (KeepsUp s e) :=
  decidable_of_iff (s.CommitsFollowed e ∧ s.LosesSettled e ∧ e ≠ .listener .storeError ∧
      s.RemapsCurrent e)
    ⟨fun ⟨h₁, h₂, h₃, h₄⟩ ↦ ⟨h₁, h₂, h₃, h₄⟩, fun h ↦ ⟨h.1, h.2, h.3, h.4⟩⟩

/-! ## Steps -/

section Steps

variable {printsAlike : Ipv6Addr → Bool} {s s' : State}

@[simp] theorem loaded_notify (d : Daemon) (i : BitVec 32) : (d.notify i).loaded = d.loaded := by
  rcases notify_cases d i with ⟨queue, handler, resolver, rfl, h⟩ | h <;> rw [h]
  rfl

theorem unhandled_subset_notify (d : Daemon) (i : BitVec 32) :
    d.unhandled ⊆ (d.notify i).unhandled := by
  rcases notify_cases d i with ⟨queue, handler, resolver, rfl, h⟩ | h <;> rw [h]
  · apply List.append_subset.mpr
    constructor
    · cases handler <;> exact List.subset_append_left _ _
    · exact fun j hj ↦ List.mem_append_right _ (List.mem_append_left _ hj)
  · exact List.Subset.refl _

theorem mem_unhandled_notify {d : Daemon} (hl : d.loaded = true) (hf : d.follows = true)
    (i : BitVec 32) : i ∈ (d.notify i).unhandled := by
  cases d with
  | down => cases hl
  | starting => cases hl
  | loading rows => cases hf
  | running listener resolver =>
      obtain ⟨queue, handler⟩ := listener
      obtain ⟨q, rfl⟩ := Option.isSome_iff_exists.mp hf
      exact List.mem_append_right _ (List.mem_append_right _ (List.mem_singleton_self i))

theorem unhandled_running (listener : Listener) (resolver resolver' : Resolver) :
    (Daemon.running listener resolver).unhandled =
      (Daemon.running listener resolver').unhandled := by
  obtain ⟨queue, handler⟩ := listener
  cases handler <;> rfl

/-- A commit that is heard of, or that changes no origin, keeps the map tracking. -/
theorem tracked_commit {i : BitVec 32} {o : Ipv6Addr}
    (hc : Domains.Commit s.domains i o s'.domains) (hnat : s'.natMap = s.natMap)
    (hd : s'.daemon = s.daemon.notify i)
    (hok : s.daemon.follows = true ∨ s.view.source i = some o) (h : s.Tracked) :
    s'.Tracked := by
  intro hl
  rw [hd, loaded_notify] at hl
  have hcopy : s'.view.copy = s.view.copy := by simp only [State.view, viewOf, hnat]
  have hwrites : s'.view.writes = s.view.writes := by
    simp only [State.view, viewOf, hd, writes_notify]
  have hnot : s.view.notices ⊆ s'.view.notices := by
    intro j hj
    change j ∈ s'.daemon.unhandled
    rw [hd]
    exact unhandled_subset_notify s.daemon i hj
  have hsrc : ∀ j v, s'.view.source j = some v →
      s.view.source j = some v ∨ j = i ∧ v = o := by
    intro j v hj
    obtain ⟨r, hr, rfl, rfl⟩ := source_eq_some_iff.mp hj
    rcases hc.rows r hr with hold | ⟨rfl, rfl⟩
    · exact .inl (source_eq_some_iff.mpr ⟨r, hold, rfl, rfl⟩)
    · exact .inr ⟨rfl, rfl⟩
  rcases hok with hf | hsame
  · have hmem : i ∈ s'.view.notices := by
      change i ∈ s'.daemon.unhandled
      rw [hd]
      exact mem_unhandled_notify hl hf i
    exact (h hl).commit hcopy hwrites hnot hmem fun j v hj ↦
      (hsrc j v hj).elim .inr fun heq ↦ .inl heq.1
  · refine (h hl).same_source hcopy hwrites hnot fun j v hj ↦ ?_
    rcases hsrc j v hj with hold | ⟨rfl, rfl⟩
    · exact hold
    · exact hsame

theorem DnsTransition.keeps_tracked {n : ℕ} {t : Task} {e : DnsEvent}
    (hs : DnsTransition s n t e s') (ht : s.tasks[n]? = some t) (hG : KeepsUp s (.dns n e))
    (h : s.Tracked) : s'.Tracked := by
  cases hs with
  | hit hpc hrow => exact h
  | found hpc => exact h
  | allocated hpc hv => exact h
  | @upserted origin storedSynthetic domainId storedId domains hpc hins =>
      have hcommit : s.commits (.dns n .insertDomain) = some (storedId, origin) := by
        obtain ⟨name, pc⟩ := t
        cases hpc
        simp only [State.commits, ht]
        rw [show normalize name = Task.domain ⟨name, _⟩ from rfl, hins]
        rfl
      exact tracked_commit (Domains.commit_insertDomain hins) rfl rfl
        (hG.commits _ hcommit) h
  | silent hpc => exact h

theorem copy_insert {domains domains' : Domains} {natMap natMap' : NatMap} {d d' : Daemon}
    {i : BitVec 32} {o : Ipv6Addr} (hins : natMap.insert i ⟨o⟩ = some natMap') (j : BitVec 32) :
    (viewOf domains' natMap' d').copy j =
      if j = i then some o else (viewOf domains natMap d).copy j := by
  change (natMap'.get j).map NatEntry.originIpv6 = _
  rw [BoundedMap.get_insert hins]
  split <;> rfl

theorem MainTransition.keeps_tracked {e : MainEvent} (hs : MainTransition s e s')
    (h : s.Tracked) : s'.Tracked := by
  cases hs with
  | start => rintro ⟨⟩
  | exit => rintro ⟨⟩
  | select hd =>
      intro _
      apply View.tracks_of_snapshot
      ext ⟨i, o⟩
      change (i, o) ∈ s.domains.rows.map (fun r ↦ (r.domainId, r.originIpv6)) ↔
        s.view.source i = some o
      rw [source_eq_some_iff, List.mem_map]
      simp only [Prod.mk.injEq]
  | load hd hins =>
      intro _
      exact (h.tracks hd rfl).write rfl (fun j hj ↦ hj) List.mem_cons_self (copy_insert hins)
        (fun p hp ↦ List.mem_cons_of_mem _ hp) fun p hp ↦ List.mem_cons.mp hp
  | spawn hd =>
      intro _
      have htr := h.tracks hd rfl
      exact htr

theorem ListenerTransition.keeps_tracked {e : ListenerEvent} (hs : ListenerTransition s e s')
    (hG : KeepsUp s (.listener e)) (h : s.Tracked) : s'.Tracked := by
  intro _
  cases hs with
  -- Listening on an empty queue or taking up a notification is not visible in the view.
  | listen hd =>
      have htr := h.tracks hd rfl
      exact htr
  | @disconnect queue handler resolver hd =>
      refine (h.tracks hd rfl).lose rfl ?_ rfl ?_
      · cases handler <;> rfl
      · intro k v hk hmem
        rcases List.mem_append.mp hmem with hfetch | hqueue
        · left
          cases handler <;> exact List.mem_append_left _ hfetch
        · right
          have hset := hG.losses k (by rw [State.loses, hd]; exact hqueue) v hk
          rwa [State.view, hd] at hset
  | recv hd =>
      have htr := h.tracks hd rfl
      exact htr
  | @fetch queue domainId resolver row hd hrow =>
      refine (h.tracks hd rfl).read (k := domainId) rfl rfl
        (fun j hj ↦ List.mem_cons.mp hj) (Set.ext fun p ↦ List.mem_nil_iff p) ?_
      ext ⟨i, o⟩
      change (i, o) ∈ [(domainId, row.originIpv6)] ↔
        (s.domains.findById domainId).map Row.originIpv6 = some o ∧ i = domainId
      rw [hrow, List.mem_singleton, Prod.mk.injEq, Option.map_some, Option.some.injEq, eq_comm,
        and_comm, eq_comm]
  | @fetchNone queue domainId resolver hd hrow =>
      refine (h.tracks hd rfl).read (k := domainId) rfl rfl
        (fun j hj ↦ List.mem_cons.mp hj) (Set.ext fun p ↦ List.mem_nil_iff p) ?_
      ext ⟨i, o⟩
      change (i, o) ∈ [] ↔
        (s.domains.findById domainId).map Row.originIpv6 = some o ∧ i = domainId
      simp [hrow]
  | fetchError hd =>
      refine (h.tracks hd rfl).lose rfl rfl rfl ?_
      intro k v hk hmem
      right
      have hset := hG.losses k (by rw [State.loses, hd]; exact hmem) v hk
      rwa [State.view, hd] at hset
  | store hd hins =>
      exact (h.tracks hd rfl).write rfl (fun j hj ↦ hj) (List.mem_singleton_self _)
        (copy_insert hins) (fun p hp ↦ absurd hp List.not_mem_nil)
        fun p hp ↦ .inl (List.mem_singleton.mp hp)
  | storeError hd => exact absurd rfl hG.inserts

/-- The resolver's part of the daemon does not enter the view. -/
theorem State.Tracked.with_resolver (h : s.Tracked) {listener : Listener} {resolver : Resolver}
    (hd : s.daemon = .running listener resolver) (resolver' : Resolver) :
    (viewOf s.domains s.natMap (.running listener resolver')).Tracks := by
  have htr := h.tracks hd rfl
  obtain ⟨queue, handler⟩ := listener
  cases handler <;> exact htr

theorem ResolverTransition.keeps_tracked {e : ResolverEvent}
    (hs : ResolverTransition printsAlike s e s') (hG : KeepsUp s (.resolver e))
    (h : s.Tracked) : s'.Tracked := by
  cases hs with
  | tick hd => exact fun _ ↦ h.with_resolver hd _
  | changed hd hip => exact fun _ ↦ h.with_resolver hd _
  | unchanged hd hip => exact fun _ ↦ h.with_resolver hd _
  | noAnswer hd => exact fun _ ↦ h.with_resolver hd _
  | @update listener domainId ip rows hd hrow =>
      obtain ⟨row, hrow⟩ := Option.isSome_iff_exists.mp hrow
      have hcommit : s.commits (.resolver .update) = some (domainId, ip) := by
        rw [State.commits, hd]
        simp only [Daemon.resolver, hrow, Option.map_some]
      have hok := hG.commits _ hcommit
      rw [hd] at hok
      -- The resolver has moved on to its map write; the commit is then as any other.
      exact tracked_commit (s := { s with daemon := .running listener (.remap domainId ip rows) })
        (Domains.commit_updateOrigin _ domainId ip) rfl rfl hok fun _ ↦ h.with_resolver hd _
  | updateNone hd => exact fun _ ↦ h.with_resolver hd _
  | @remap listener domainId ip rows natMap hd hins =>
      intro _
      have hremap : s.remaps (.resolver .remap) = some (domainId, ip) := by
        rw [State.remaps, hd]
        rfl
      have hcur := hG.remaps _ hremap
      rw [State.view, hd] at hcur
      have htr := h.with_resolver hd (.pass rows)
      refine htr.foreign_write rfl rfl rfl (copy_insert hins) ?_
      rw [unhandled_running _ _ (.pass rows), writes_running _ _ (.pass rows)] at hcur
      exact hcur
  | passError hd => exact fun _ ↦ h.with_resolver hd _
  | passDone hd => exact fun _ ↦ h.with_resolver hd _

theorem step_tracked {e : Event} (h : s.Tracked) (hG : KeepsUp s e)
    (hs : step printsAlike s e = some s') : s'.Tracked := by
  cases e with
  | query name =>
      cases hs
      exact h
  | dns n e =>
      obtain ⟨t, ht, htr⟩ := dnsStep_sound hs
      exact htr.keeps_tracked ht hG h
  | main e => exact (mainStep_sound hs).keeps_tracked h
  | listener e => exact (listenerStep_sound hs).keeps_tracked hG h
  | resolver e => exact (resolverStep_sound hs).keeps_tracked hG h

end Steps

theorem get_of_tracked {s : State} (h : s.Tracked) {resolver : Resolver}
    (hd : s.daemon = .running ⟨some [], .idle⟩ resolver) :
    ∀ r ∈ s.domains.rows, s.natMap.get r.domainId = some ⟨r.originIpv6⟩ := by
  intro r hr
  have htr := h.tracks hd rfl
  have hcopy := htr.eq_copy (Set.ext fun j ↦ List.mem_nil_iff j)
    (Set.ext fun p ↦ List.mem_nil_iff p) (source_eq_some_iff.mpr ⟨r, hr, rfl, rfl⟩)
  obtain ⟨entry, hentry, horigin⟩ := Option.map_eq_some_iff.mp hcopy
  rw [hentry, ← horigin]

/-! ## Start-up and reconnects -/

/-- Along runs that keep up, a daemon that listens and is idle holds the stored
origin of every row, whatever its resolver is doing. -/
theorem nat_map_complete (printsAlike : Ipv6Addr → Bool) (lastValue : ℕ) (es : List Event)
    (s : State) (resolver : Resolver)
    (h : play (step printsAlike) (.init lastValue) es = some s)
    (hG : Along (step printsAlike) KeepsUp (.init lastValue) es)
    (hd : s.daemon = .running ⟨some [], .idle⟩ resolver) :
    ∀ r ∈ s.domains.rows, s.natMap.get r.domainId = some ⟨r.originIpv6⟩ := by
  have hinit : (State.init lastValue).Tracked := by rintro ⟨⟩
  have htracked : s.Tracked :=
    play_invariant_along KeepsUp State.Tracked (fun _ _ _ hI he hs ↦ step_tracked hI he hs)
      hinit hG h
  exact get_of_tracked htracked hd

def queryEvents (n : ℕ) (name : String) (origin : Ipv6Addr) : List Event :=
  [.query name, .dns n .findByDomain, .dns n (.lookupAaaa (.found origin)), .dns n .nextDomainId,
    .dns n .insertDomain]

def handleEvents : List Event :=
  [.listener .recv, .listener .fetch, .listener .store]

def quietRun : List Event :=
  List.flatten
    [queryEvents 0 "a" (Vector.replicate 16 1),
      [.main .start, .main .select, .main .load, .main .spawn, .listener .listen],
      queryEvents 1 "b" (Vector.replicate 16 2), handleEvents,
      [.listener .disconnect, .listener .listen]]

theorem nat_map_complete_quiet :
    ∃ s, play (step fun _ ↦ true) (.init 0) quietRun = some s ∧
      s.domains.rows.map Row.domainId = [1, 2] ∧
      ∀ r ∈ s.domains.rows, s.natMap.get r.domainId = some ⟨r.originIpv6⟩ := by
  have hrun : (play (step fun _ ↦ true) (.init 0) quietRun).map
      (fun s ↦ (s.daemon, s.domains.rows.map Row.domainId)) =
        some (.running ⟨some [], .idle⟩ .idle, [1, 2]) := by
    decide +kernel
  obtain ⟨s, hs, hsome⟩ := Option.map_eq_some_iff.mp hrun
  obtain ⟨hd, hrows⟩ := Prod.mk.inj hsome
  exact ⟨s, hs, hrows, nat_map_complete _ _ _ s .idle hs (by decide +kernel) hd⟩

/-- A row is stored between the snapshot and the first `LISTEN`, and another
one while the connection is down. -/
def gapRun : List Event :=
  List.flatten
    [[.main .start, .main .select], queryEvents 0 "a" (Vector.replicate 16 1),
      [.main .spawn, .listener .listen, .listener .disconnect],
      queryEvents 1 "b" (Vector.replicate 16 2), [.listener .listen]]

theorem nat_map_misses_rows :
    (play (step fun _ ↦ true) (.init 0) gapRun).map
      (fun s ↦ (s.daemon, s.domains.rows.map fun r ↦ (r.domainId, r.originIpv6),
        s.natMap.get 1, s.natMap.get 2)) =
      some (.running ⟨some [], .idle⟩ .idle,
        [(1, Vector.replicate 16 1), (2, Vector.replicate 16 2)], none, none) := by
  decide +kernel

/-! ## The resolver and the listener -/

def Event.staysConnected : Event → Bool
  | .main _ => false
  | .listener .disconnect => false
  | .listener .fetchError => false
  | .listener .storeError => false
  | _ => true

def Daemon.Listening (d : Daemon) : Prop :=
  ∃ queue handler resolver, d = .running ⟨some queue, handler⟩ resolver

theorem Daemon.Listening.notify {d : Daemon} (h : d.Listening) (i : BitVec 32) :
    (d.notify i).Listening := by
  obtain ⟨queue, handler, resolver, rfl⟩ := h
  exact ⟨queue ++ [i], handler, resolver, rfl⟩

section Connected

variable {printsAlike : Ipv6Addr → Bool} {s s' : State}

theorem ListenerTransition.keeps_listening {e : ListenerEvent} (hs : ListenerTransition s e s')
    (he : Event.staysConnected (.listener e) = true) (h : s.daemon.Listening) :
    s'.daemon.Listening := by
  obtain ⟨queue₀, handler₀, resolver₀, h₀⟩ := h
  cases hs with
  | listen hd => exact ⟨_, _, _, rfl⟩
  | disconnect hd => cases he
  | recv hd => exact ⟨_, _, _, rfl⟩
  | fetch hd hrow =>
      rw [h₀] at hd
      cases hd
      exact ⟨_, _, _, rfl⟩
  | fetchNone hd hrow =>
      rw [h₀] at hd
      cases hd
      exact ⟨_, _, _, rfl⟩
  | fetchError hd => cases he
  | store hd hins =>
      rw [h₀] at hd
      cases hd
      exact ⟨_, _, _, rfl⟩
  | storeError hd => cases he

theorem ResolverTransition.keeps_listening {e : ResolverEvent}
    (hs : ResolverTransition printsAlike s e s') (h : s.daemon.Listening) :
    s'.daemon.Listening := by
  have hkeep : ∀ {listener : Listener} {resolver : Resolver} (resolver' : Resolver),
      s.daemon = .running listener resolver → (Daemon.running listener resolver').Listening := by
    intro listener resolver resolver' hd
    obtain ⟨queue, handler, resolver₀, h₀⟩ := h
    rw [h₀] at hd
    cases hd
    exact ⟨queue, handler, resolver', rfl⟩
  cases hs with
  | tick hd => exact hkeep _ hd
  | changed hd hip => exact hkeep _ hd
  | unchanged hd hip => exact hkeep _ hd
  | noAnswer hd => exact hkeep _ hd
  | update hd hrow => exact (hkeep _ hd).notify _
  | updateNone hd => exact hkeep _ hd
  | remap hd hins => exact hkeep _ hd
  | passError hd => exact hkeep _ hd
  | passDone hd => exact hkeep _ hd

theorem step_listening {e : Event} (h : s.daemon.Listening) (he : e.staysConnected = true)
    (hs : step printsAlike s e = some s') : s'.daemon.Listening := by
  cases e with
  | query name =>
      cases hs
      exact h
  | dns n e =>
      obtain ⟨t, -, htr⟩ := dnsStep_sound hs
      cases htr with
      | hit hpc hrow => exact h
      | found hpc => exact h
      | allocated hpc hv => exact h
      | upserted hpc hins => exact h.notify _
      | silent hpc => exact h
  | main e => cases he
  | listener e => exact (listenerStep_sound hs).keeps_listening he h
  | resolver e => exact (resolverStep_sound hs).keeps_listening h

/-- While the daemon is connected, only the resolver can fall behind. -/
theorem keepsUp_of_listening {e : Event} (h : s.daemon.Listening)
    (he : e.staysConnected = true) (hr : s.RemapsCurrent e) : KeepsUp s e where
  commits p hp := by
    obtain ⟨queue, handler, resolver, hd⟩ := h
    left
    rw [hd]
    rfl
  losses i hi := by
    unfold State.loses at hi
    split at hi
    · cases he
    · cases he
    · cases hi
  inserts := by
    rintro rfl
    cases he
  remaps := hr

end Connected

/-- From any state in which the map agrees with the table, along runs that stay
connected and whose resolver writes only current origins, the map agrees with
the table again whenever nothing is left to handle. -/
theorem nat_map_current (printsAlike : Ipv6Addr → Bool) (es : List Event) (s₀ s : State)
    (hd₀ : s₀.daemon = .running ⟨some [], .idle⟩ .idle)
    (hsync : ∀ r ∈ s₀.domains.rows, s₀.natMap.get r.domainId = some ⟨r.originIpv6⟩)
    (h : play (step printsAlike) s₀ es = some s)
    (hG : Along (step printsAlike)
      (fun s e ↦ e.staysConnected = true ∧ s.RemapsCurrent e) s₀ es)
    (hd : s.daemon = .running ⟨some [], .idle⟩ .idle) :
    ∀ r ∈ s.domains.rows, s.natMap.get r.domainId = some ⟨r.originIpv6⟩ := by
  have hinit : s₀.Tracked := by
    intro _ i o hi
    obtain ⟨r, hr, rfl, rfl⟩ := source_eq_some_iff.mp hi
    refine .inr ⟨?_, .inr ?_⟩
    · intro p hp
      change p ∈ s₀.daemon.writes at hp
      rw [hd₀] at hp
      exact absurd hp List.not_mem_nil
    · change (s₀.natMap.get r.domainId).map NatEntry.originIpv6 = some r.originIpv6
      rw [hsync r hr, Option.map_some]
  have hinv : s.Tracked ∧ s.daemon.Listening := by
    refine play_invariant_along _ (fun s ↦ s.Tracked ∧ s.daemon.Listening) ?_
      ⟨hinit, _, _, _, hd₀⟩ hG h
    rintro s e s' ⟨hI, hL⟩ ⟨he, hr⟩ hs
    exact ⟨step_tracked hI (keepsUp_of_listening hL he hr) hs, step_listening hL he hs⟩
  exact get_of_tracked hinv.1 hd

def State.connected : State :=
  { State.init 0 with daemon := .running ⟨some [], .idle⟩ .idle }

def calmPass : List Event :=
  List.flatten
    [queryEvents 0 "a" (Vector.replicate 16 1), handleEvents,
      [.resolver .tick, .resolver (.lookup (.found (Vector.replicate 16 2))), .resolver .update,
        .resolver .remap, .resolver .passDone], handleEvents]

theorem nat_map_current_calm :
    ∃ s, play (step fun _ ↦ true) State.connected calmPass = some s ∧
      s.domains.rows.map Row.originIpv6 = [Vector.replicate 16 2] ∧
      ∀ r ∈ s.domains.rows, s.natMap.get r.domainId = some ⟨r.originIpv6⟩ := by
  have hrun : (play (step fun _ ↦ true) State.connected calmPass).map
      (fun s ↦ (s.daemon, s.domains.rows.map Row.originIpv6)) =
        some (.running ⟨some [], .idle⟩ .idle, [Vector.replicate 16 2]) := by
    decide +kernel
  obtain ⟨s, hs, hsome⟩ := Option.map_eq_some_iff.mp hrun
  obtain ⟨hd, hrows⟩ := Prod.mk.inj hsome
  exact ⟨s, hs, hrows, nat_map_current _ calmPass State.connected s rfl
    (fun r hr ↦ absurd hr List.not_mem_nil) hs (by decide +kernel) hd⟩

/-- Two calls for one name race.  The resolver commits in between and writes
its address to the map only after the second call has replaced it and the
listener has dealt with that. -/
def staleRemap : List Event :=
  List.flatten
    [[.query "a", .query "a", .dns 0 .findByDomain, .dns 1 .findByDomain,
        .dns 0 (.lookupAaaa (.found (Vector.replicate 16 1))), .dns 0 .nextDomainId,
        .dns 0 .insertDomain], handleEvents,
      [.resolver .tick, .resolver (.lookup (.found (Vector.replicate 16 2))), .resolver .update],
      handleEvents,
      [.dns 1 (.lookupAaaa (.found (Vector.replicate 16 3))), .dns 1 .nextDomainId,
        .dns 1 .insertDomain], handleEvents, [.resolver .remap, .resolver .passDone]]

theorem nat_map_stale :
    (play (step fun _ ↦ true) State.connected staleRemap).map
      (fun s ↦ (s.daemon, s.domains.rows.map fun r ↦ (r.domainId, r.originIpv6),
        s.natMap.get 1)) =
      some (.running ⟨some [], .idle⟩ .idle, [(1, Vector.replicate 16 3)],
        some ⟨Vector.replicate 16 2⟩) ∧
      staleRemap.all Event.staysConnected = true := by
  decide +kernel

end PrototypeNet
