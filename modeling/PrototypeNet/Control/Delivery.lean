import PrototypeNet.Control.Allocation
import PrototypeNet.Nat66.RoundTrip

/-!
# No delivery across domains

Every address that is stored for an id, or on its way into `NAT_MAP` under it,
was returned by an upstream lookup for the domain that owns the id.  The
invariant follows an address along all four paths into the map: the upsert and
its notification, the bulk load, and the resolver's update and its own write.
-/

namespace PrototypeNet

open Runs Buffer Fallible ByteWords

/-! ## Where addresses come from -/

/-- Some lookup for the domain of this id returned this address. -/
def State.Vouches (s : State) (domainId : BitVec 32) (ip : Ipv6Addr) : Prop :=
  ∃ x, domainId ∈ s.domains.allocation x ∧ (x, ip) ∈ s.lookups

theorem State.Vouches.mono {s s' : State} {domainId : BitVec 32} {ip : Ipv6Addr}
    (h : s.Vouches domainId ip) (hs : s.Grows s') : s'.Vouches domainId ip := by
  obtain ⟨x, hx, hip⟩ := h
  exact ⟨x, hs.allocation x domainId hx, hs.lookups hip⟩

def Pc.origin : Pc → Option Ipv6Addr
  | .nextDomainId origin => some origin
  | .insertDomain origin _ => some origin
  | _ => none

structure State.Sourced (s : State) : Prop where
  tasks : ∀ t ∈ s.tasks, ∀ o ∈ t.pc.origin, (t.domain, o) ∈ s.lookups
  rows : ∀ r ∈ s.domains.rows, s.Vouches r.domainId r.originIpv6
  natMap : ∀ i o, s.natMap.get i = some ⟨o⟩ → s.Vouches i o
  writes : ∀ i o, (i, o) ∈ s.daemon.writes → s.Vouches i o
  resolver : ∀ i o, (i, o) ∈ s.daemon.resolver.writes → s.Vouches i o
  snapshot : ∀ r ∈ s.daemon.resolver.rows, r.domainId ∈ s.domains.allocation r.domain

theorem sourced_init (lastValue : ℕ) : (State.init lastValue).Sourced where
  tasks _ ht := absurd ht List.not_mem_nil
  rows _ hr := absurd hr List.not_mem_nil
  natMap _ _ h := by cases h
  writes _ _ h := absurd h List.not_mem_nil
  resolver _ _ h := absurd h List.not_mem_nil
  snapshot _ hr := absurd hr List.not_mem_nil

theorem forall_get_of_insert {P : BitVec 32 → Ipv6Addr → Prop} {m m' : NatMap}
    {k : BitVec 32} {o : Ipv6Addr} (hins : m.insert k ⟨o⟩ = some m') (hnew : P k o)
    (h : ∀ i v, m.get i = some ⟨v⟩ → P i v) : ∀ i v, m'.get i = some ⟨v⟩ → P i v := by
  intro i v hget
  rw [BoundedMap.get_insert hins] at hget
  split at hget
  · rename_i hik
    cases hget
    rw [hik]
    exact hnew
  · exact h i v hget

/-- After a commit of an address that a lookup for the owner of the id returned,
all rows hold such addresses again. -/
theorem vouches_of_commit {s s' : State} {i : BitVec 32} {o : Ipv6Addr}
    (hc : Domains.Commit s.domains i o s'.domains) (hs : s.Grows s')
    (hrows : ∀ r ∈ s.domains.rows, s.Vouches r.domainId r.originIpv6) (hnew : s'.Vouches i o) :
    ∀ r ∈ s'.domains.rows, s'.Vouches r.domainId r.originIpv6 := by
  intro r hr
  rcases hc.rows r hr with hold | ⟨rfl, rfl⟩
  · exact (hrows r hold).mono hs
  · exact hnew

/-! ## Steps -/

section Steps

variable {printsAlike : Ipv6Addr → Bool} {s s' : State}

theorem DnsTransition.keeps_sourced {n : ℕ} {t : Task} {e : DnsEvent}
    (hs : DnsTransition s n t e s')
    (ht : t ∈ s.tasks) (h : s.Sourced) : s'.Sourced := by
  have hgrows := hs.grows
  have htasks : ∀ (pc : Pc), (∀ o ∈ pc.origin, (t.domain, o) ∈ s'.lookups) →
      ∀ t' ∈ (s.setPc n t pc).tasks, ∀ o ∈ t'.pc.origin, (t'.domain, o) ∈ s'.lookups := by
    intro pc hpc t' ht' o ho
    rcases mem_setPc ht' with ht' | rfl
    · exact hgrows.lookups (h.tasks t' ht' o ho)
    · exact hpc o ho
  cases hs with
  | hit hpc hrow =>
      exact { h with tasks := htasks _ (by rintro o ⟨⟩) }
  | @found ip hpc =>
      refine
        { tasks := htasks _ ?_
          rows := fun r hr ↦ (h.rows r hr).mono hgrows
          natMap := fun i o hg ↦ (h.natMap i o hg).mono hgrows
          writes := fun i o hw ↦ (h.writes i o hw).mono hgrows
          resolver := fun i o hw ↦ (h.resolver i o hw).mono hgrows
          snapshot := h.snapshot }
      rintro o ⟨⟩
      exact List.mem_append_right _ (List.mem_singleton_self _)
  | allocated hpc hv =>
      refine { h with tasks := htasks _ ?_ }
      rintro o ⟨⟩
      exact h.tasks t ht _ (by rw [hpc]; rfl)
  | @upserted origin storedSynthetic domainId storedId domains hpc hins =>
      have hc := Domains.commit_insertDomain hins
      have hlookup : (t.domain, origin) ∈ s.lookups := h.tasks t ht _ (by rw [hpc]; rfl)
      obtain ⟨r, hr, hdom, hid, -, -⟩ := Domains.stored_insertDomain hins
      exact
        { tasks := htasks _ (by rintro o ⟨⟩)
          rows := vouches_of_commit hc hgrows h.rows
            ⟨t.domain, Domains.mem_allocation_iff.mpr ⟨r, hr, hdom, hid⟩, hlookup⟩
          natMap := fun i o hg ↦ (h.natMap i o hg).mono hgrows
          writes := fun i o hw ↦ (h.writes i o (by simpa using hw)).mono hgrows
          resolver := fun i o hw ↦ (h.resolver i o (by simpa using hw)).mono hgrows
          snapshot := fun r hr ↦
            hgrows.allocation _ _ (h.snapshot r (by simpa using hr)) }
  | silent hpc =>
      refine { h with tasks := htasks _ ?_ }
      rcases hpc with rfl | rfl | rfl | rfl <;> rintro o ⟨⟩

/-- A new phase of the daemon, given what is about to be written in it; the
resolver goes on as it was or has nothing to do. -/
theorem State.Sourced.with_daemon (h : s.Sourced) {daemon : Daemon}
    (hw : ∀ p ∈ daemon.writes, s.Vouches p.1 p.2)
    (hr : daemon.resolver = .idle ∨ daemon.resolver = s.daemon.resolver) :
    State.Sourced { s with daemon := daemon } := by
  refine { h with
    writes := fun i o hio ↦ hw (i, o) hio
    resolver := ?_
    snapshot := ?_ }
  · intro i o hio
    rcases hr with hr | hr <;> rw [hr] at hio
    · exact absurd hio List.not_mem_nil
    · exact h.resolver i o hio
  · intro r hrow
    rcases hr with hr | hr <;> rw [hr] at hrow
    · exact absurd hrow List.not_mem_nil
    · exact h.snapshot r hrow

theorem MainTransition.keeps_sourced {e : MainEvent} (hs : MainTransition s e s')
    (h : s.Sourced) : s'.Sourced := by
  cases hs with
  | start =>
      refine { h.with_daemon (List.forall_mem_nil _) (.inl rfl) with natMap := ?_ }
      intro i o hget
      cases hget
  | exit => exact h.with_daemon (List.forall_mem_nil _) (.inl rfl)
  | select hd =>
      refine h.with_daemon ?_ (.inl rfl)
      intro p hp
      obtain ⟨r, hr, rfl⟩ := List.mem_map.mp hp
      exact h.rows r hr
  | @load row rows natMap hd hins =>
      have hwrites := h.writes
      rw [hd] at hwrites
      have hrow := hwrites _ _ (List.mem_map_of_mem List.mem_cons_self)
      have hrest : State.Sourced { s with daemon := .loading rows } :=
        h.with_daemon (fun p hp ↦ hwrites p.1 p.2 (List.mem_cons_of_mem _ hp)) (.inl rfl)
      exact { hrest with natMap := forall_get_of_insert hins hrow h.natMap }
  | spawn hd => exact h.with_daemon (List.forall_mem_nil _) (.inl rfl)

theorem ListenerTransition.resolver_eq {e : ListenerEvent} (hs : ListenerTransition s e s') :
    s'.daemon.resolver = s.daemon.resolver := by
  cases hs with
  | listen hd => rw [hd]; rfl
  | disconnect hd => rw [hd]; rfl
  | recv hd => rw [hd]; rfl
  | fetch hd hrow => rw [hd]; rfl
  | fetchNone hd hrow => rw [hd]; rfl
  | fetchError hd => rw [hd]; rfl
  | store hd hins => rw [hd]; rfl
  | storeError hd => rw [hd]; rfl

theorem ListenerTransition.keeps_sourced {e : ListenerEvent} (hs : ListenerTransition s e s')
    (h : s.Sourced) : s'.Sourced := by
  have hres := hs.resolver_eq
  have hwrites := h.writes
  -- Only a fetch puts a new write under way, and only a store carries one out.
  cases hs with
  | listen hd => exact h.with_daemon (List.forall_mem_nil _) (.inr hres)
  | @disconnect queue handler resolver hd =>
      rw [hd] at hwrites
      refine h.with_daemon (fun p hp ↦ hwrites p.1 p.2 ?_) (.inr hres)
      cases handler <;> exact hp
  | recv hd => exact h.with_daemon (List.forall_mem_nil _) (.inr hres)
  | fetch hd hrow =>
      obtain ⟨hmem, rfl⟩ := Domains.mem_of_findById hrow
      refine h.with_daemon ?_ (.inr hres)
      intro p hp
      rw [List.mem_singleton.mp hp]
      exact h.rows _ hmem
  | fetchNone hd hrow => exact h.with_daemon (List.forall_mem_nil _) (.inr hres)
  | fetchError hd => exact h.with_daemon (List.forall_mem_nil _) (.inr hres)
  | store hd hins =>
      rw [hd] at hwrites
      exact { h.with_daemon (List.forall_mem_nil _) (.inr hres) with
        natMap := forall_get_of_insert hins (hwrites _ _ (List.mem_singleton_self _)) h.natMap }
  | storeError hd => exact h.with_daemon (List.forall_mem_nil _) (.inr hres)

theorem ResolverTransition.writes_eq {e : ResolverEvent}
    (hs : ResolverTransition printsAlike s e s') : s'.daemon.writes = s.daemon.writes := by
  cases hs with
  | tick hd => rw [hd]; exact writes_running _ _ _
  | changed hd hip => rw [hd]; exact writes_running _ _ _
  | unchanged hd hip => rw [hd]; exact writes_running _ _ _
  | noAnswer hd => rw [hd]; exact writes_running _ _ _
  | update hd hrow =>
      rw [hd, daemon_commit, writes_notify]
      exact writes_running _ _ _
  | updateNone hd => rw [hd]; exact writes_running _ _ _
  | remap hd hins => rw [hd]; exact writes_running _ _ _
  | passError hd => rw [hd]; exact writes_running _ _ _
  | passDone hd => rw [hd]; exact writes_running _ _ _

theorem ResolverTransition.keeps_sourced {e : ResolverEvent}
    (hs : ResolverTransition printsAlike s e s') (h : s.Sourced) : s'.Sourced := by
  have hgrows := hs.grows
  have htasks : ∀ t ∈ s'.tasks, ∀ o ∈ t.pc.origin, (t.domain, o) ∈ s'.lookups := by
    rw [hs.frame.2.1]
    exact fun t ht o ho ↦ hgrows.lookups (h.tasks t ht o ho)
  have hwrites : ∀ i o, (i, o) ∈ s'.daemon.writes → s'.Vouches i o := by
    rw [hs.writes_eq]
    exact fun i o hw ↦ (h.writes i o hw).mono hgrows
  have hrows : ∀ r ∈ s.domains.rows, s'.Vouches r.domainId r.originIpv6 :=
    fun r hr ↦ (h.rows r hr).mono hgrows
  have hnat : ∀ i o, s.natMap.get i = some ⟨o⟩ → s'.Vouches i o :=
    fun i o hg ↦ (h.natMap i o hg).mono hgrows
  have hres := h.resolver
  have hsnap := h.snapshot
  cases hs with
  | tick hd =>
      exact ⟨htasks, hrows, hnat, hwrites, fun i o hw ↦ absurd hw List.not_mem_nil,
        fun r hr ↦ Domains.mem_allocation_iff.mpr ⟨r, hr, rfl, rfl⟩⟩
  | @changed listener row rows ip hd hip =>
      rw [hd] at hsnap
      refine ⟨htasks, hrows, hnat, hwrites, ?_, fun r hr ↦ hsnap r (List.mem_cons_of_mem _ hr)⟩
      intro i o hw
      cases List.mem_singleton.mp hw
      exact ⟨row.domain, hsnap row List.mem_cons_self,
        List.mem_append_right _ (List.mem_singleton_self _)⟩
  | unchanged hd hip =>
      rw [hd] at hsnap
      exact ⟨htasks, hrows, hnat, hwrites, fun i o hw ↦ absurd hw List.not_mem_nil,
        fun r hr ↦ hsnap r (List.mem_cons_of_mem _ hr)⟩
  | noAnswer hd =>
      rw [hd] at hsnap
      exact ⟨htasks, hrows, hnat, hwrites, fun i o hw ↦ absurd hw List.not_mem_nil,
        fun r hr ↦ hsnap r (List.mem_cons_of_mem _ hr)⟩
  | @update listener domainId ip rows hd hrow =>
      rw [hd] at hres hsnap
      have hnew := (hres domainId ip (List.mem_singleton_self _)).mono hgrows
      refine ⟨htasks, ?_, hnat, hwrites, ?_, ?_⟩
      · exact vouches_of_commit (Domains.commit_updateOrigin _ domainId ip) hgrows h.rows hnew
      · intro i o hw
        rw [daemon_commit, resolver_notify] at hw
        cases List.mem_singleton.mp hw
        exact hnew
      · intro r hr
        rw [daemon_commit, resolver_notify] at hr
        exact hgrows.allocation _ _ (hsnap r hr)
  | updateNone hd =>
      rw [hd] at hres hsnap
      exact ⟨htasks, hrows, hnat, hwrites, hres, hsnap⟩
  | remap hd hins =>
      rw [hd] at hres hsnap
      exact ⟨htasks, hrows,
        forall_get_of_insert hins (hres _ _ (List.mem_singleton_self _)) hnat, hwrites,
        fun i o hw ↦ absurd hw List.not_mem_nil, hsnap⟩
  | passError hd =>
      exact ⟨htasks, hrows, hnat, hwrites, fun i o hw ↦ absurd hw List.not_mem_nil,
        fun r hr ↦ absurd hr List.not_mem_nil⟩
  | passDone hd =>
      exact ⟨htasks, hrows, hnat, hwrites, fun i o hw ↦ absurd hw List.not_mem_nil,
        fun r hr ↦ absurd hr List.not_mem_nil⟩

theorem step_sourced {e : Event} (h : s.Sourced) (hs : step printsAlike s e = some s') :
    s'.Sourced := by
  cases e with
  | query name =>
      cases hs
      refine { h with tasks := ?_ }
      intro t ht
      rcases List.mem_append.mp ht with ht | ht
      · exact h.tasks t ht
      · rw [List.mem_singleton.mp ht]
        rintro o ⟨⟩
  | dns n e =>
      obtain ⟨t, hn, ht⟩ := dnsStep_sound hs
      exact ht.keeps_sourced (List.mem_of_getElem? hn) h
  | main e => exact (mainStep_sound hs).keeps_sourced h
  | listener e => exact (listenerStep_sound hs).keeps_sourced h
  | resolver e => exact (resolverStep_sound hs).keeps_sourced h

end Steps

theorem sourced_of_play {printsAlike : Ipv6Addr → Bool} {lastValue : ℕ} {es : List Event}
    {s : State} (h : play (step printsAlike) (.init lastValue) es = some s) : s.Sourced :=
  play_invariant State.Sourced (fun _ _ _ hI hs ↦ step_sourced hI hs) (sourced_init lastValue) h

/-! ## Packets -/

theorem lookup_of_answer {s : State} (halloc : s.Allocated) (hsrc : s.Sourced) {t : Task}
    (ht : t ∈ s.tasks) {ttl : BitVec 32} {a o : Ipv6Addr} (hpc : t.pc = .done (.answer ttl a))
    (hnat : s.natMap.get (domainIdFromIpv6 a) = some ⟨o⟩) : (t.domain, o) ∈ s.lookups := by
  obtain ⟨i, hi, rfl⟩ := halloc.answers t ht ttl a hpc
  rw [domainIdFromIpv6_syntheticIpv6] at hnat
  obtain ⟨x, hx, ho⟩ := hsrc.natMap i o hnat
  rwa [s.domains.allocation.inj hi hx]

theorem tcIngress_destination {build : Build} {f : Framing} {u : Tuple} {s : Ctx}
    {p' : List Byte} {m' : Maps} (h : Carries f u s.data)
    (hpre : HasPrefix syntheticPrefix u.dst)
    (hexec : exec (tcIngress build) s = (.ok .ok, ⟨p', m'⟩)) :
    ∃ o, s.maps.natMap.get (domainIdFromIpv6 u.dst) = some ⟨o⟩ ∧
      ∃ src, Carries f ⟨src, o, u.srcPort, u.dstPort, u.proto⟩ p' := by
  cases hpub : s.maps.publish (Flow.ofInner u) with
  | none =>
      rw [tcIngress_drops build h hpre hpub] at hexec
      cases hexec
  | some pub =>
      obtain ⟨key, a, o, -, ho, -, rfl⟩ := (s.maps.publish_eq_some_iff _ _).mp hpub
      obtain ⟨⟨o⟩, hnat, rfl⟩ := Option.map_eq_some_iff.mp ho
      obtain ⟨src, m, d', hexec', hr, -⟩ := tcIngress_translates build h hpre hpub
      rw [hexec] at hexec'
      cases hexec'
      exact ⟨o, hnat, src, hr.carries h⟩

/-- In every reachable state, a packet to an address that was answered for a
name is translated, if at all, to an address that some lookup for this very
name returned; and nothing but complete TCP and UDP packets is translated. -/
theorem no_cross_domain_delivery (printsAlike : Ipv6Addr → Bool) (lastValue : ℕ)
    (es : List Event) (s : State) (h : play (step printsAlike) (.init lastValue) es = some s)
    (t : Task) (ht : t ∈ s.tasks) (ttl : BitVec 32) (a : Ipv6Addr)
    (hpc : t.pc = .done (.answer ttl a)) (build : Build) (m : Maps)
    (hm : m.natMap = s.natMap) :
    (∀ f u p p' m', Carries f u p → u.dst = a →
      exec (tcIngress build) ⟨p, m⟩ = (.ok .ok, ⟨p', m'⟩) →
        ∃ o src, (normalize t.name, o) ∈ s.lookups ∧
          Carries f ⟨src, o, u.srcPort, u.dstPort, u.proto⟩ p') ∧
    ∀ p act p' m', exec (tcIngress build) ⟨p, m⟩ = (.ok act, ⟨p', m'⟩) → p' ≠ p →
      act = .ok ∧ ∃ f u, Carries f u p := by
  have halloc := allocated_of_play h
  have hsrc := sourced_of_play h
  constructor
  · rintro f u p p' m' hp rfl hexec
    have hpre : HasPrefix syntheticPrefix u.dst := by
      obtain ⟨i, -, hi⟩ := halloc.answers t ht ttl u.dst hpc
      rw [hi]
      exact hasPrefix_syntheticIpv6 i
    obtain ⟨o, hnat, src, hp'⟩ := tcIngress_destination (s := ⟨p, m⟩) hp hpre hexec
    rw [hm] at hnat
    exact ⟨o, src, lookup_of_answer halloc hsrc ht hpc hnat, hp'⟩
  · intro p act p' m' hexec hne
    rcases tcIngress_cases build ⟨p, m⟩ with ⟨act', hsame, -⟩ | ⟨f, u, pub, hp, hpre, hpub⟩
    · rw [hexec] at hsame
      cases hsame
      exact absurd rfl hne
    · obtain ⟨src, m'', d', hexec', -⟩ := tcIngress_translates build hp hpre hpub
      rw [hexec] at hexec'
      cases hexec'
      exact ⟨rfl, f, u, hp⟩

/-- The daemon starts on an empty table; then one name is asked for. -/
def demoRun : List Event :=
  [.main .start, .main .select, .main .spawn, .listener .listen, .query "a",
    .dns 0 .findByDomain, .dns 0 (.lookupAaaa (.found demoOrigin)), .dns 0 .nextDomainId,
    .dns 0 .insertDomain, .listener .recv, .listener .fetch, .listener .store]

theorem no_cross_domain_delivery_demo :
    ∃ s p' m' o src, play (step fun _ ↦ true) (.init 6) demoRun = some s ∧
      exec (tcIngress .production) ⟨packetOf .rawIpv6 demoFlow.inner [],
        { demoMaps with natMap := s.natMap }⟩ = (.ok .ok, ⟨p', m'⟩) ∧
      (normalize "a", o) ∈ s.lookups ∧ Carries .rawIpv6 ⟨src, o, 50000, 443, .tcp⟩ p' := by
  have hrun : (play (step fun _ ↦ true) (.init 6) demoRun).map
      (fun s ↦ (s.tasks, s.natMap.get 7)) =
        some ([⟨"a", .done (.answer 300 (syntheticIpv6 7))⟩], some ⟨demoOrigin⟩) := by
    decide +kernel
  obtain ⟨s, hs, hsome⟩ := Option.map_eq_some_iff.mp hrun
  obtain ⟨htasks, hnat⟩ := Prod.mk.inj hsome
  have hp : Carries .rawIpv6 demoFlow.inner (packetOf .rawIpv6 demoFlow.inner []) :=
    carries_packetOf _ _ _
  obtain ⟨p', hexec, -⟩ :=
    tcIngress_carries (s := ⟨_, { demoMaps with natMap := s.natMap }⟩) (publish_demoFlow hnat) hp
  obtain ⟨o, src, hlook, hp'⟩ := (no_cross_domain_delivery _ _ _ s hs
    ⟨"a", .done (.answer 300 (syntheticIpv6 7))⟩ (by rw [htasks]; exact List.mem_singleton_self _)
    300 (syntheticIpv6 7) rfl .production { demoMaps with natMap := s.natMap } rfl).1
    _ _ _ _ _ hp rfl hexec
  exact ⟨s, p', _, o, src, hs, hexec, hlook, hp'⟩

end PrototypeNet
