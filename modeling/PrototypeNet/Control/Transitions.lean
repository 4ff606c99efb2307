import PrototypeNet.Control.System

/-!
# What a step can do

The transitions of each activity as relations, with their guards and the
states they lead to, and the proof that the step functions make no others.
Every proof about runs goes through these lists.
-/

namespace PrototypeNet

open Runs

/-! ## The DNS server -/

inductive DnsTransition (s : State) (n : ℕ) (t : Task) : DnsEvent → State → Prop
  | hit {row : Row} (hpc : t.pc = .findByDomain)
      (hrow : s.domains.findByDomain t.domain = some row) :
      DnsTransition s n t .findByDomain
        (s.setPc n t (.done (.answer (row.ttlSeconds.getD 300) row.syntheticIpv6)))
  | found {ip : Ipv6Addr} (hpc : t.pc = .lookupAaaa) :
      DnsTransition s n t (.lookupAaaa (.found ip))
        ((s.setPc n t (.nextDomainId ip)).record t.domain ip)
  | allocated {origin : Ipv6Addr} {v : ℕ} (hpc : t.pc = .nextDomainId origin)
      (hv : nextval s.lastValue = some v) :
      DnsTransition s n t .nextDomainId
        ((s.setPc n t (.insertDomain origin (BitVec.ofNat 32 v))).setSeq v)
  | upserted {origin storedSynthetic : Ipv6Addr} {domainId storedId : BitVec 32}
      {domains : Domains} (hpc : t.pc = .insertDomain origin domainId)
      (hins : s.domains.insertDomain domainId t.domain origin (syntheticIpv6 domainId) 300 =
        some (domains, storedId, storedSynthetic)) :
      DnsTransition s n t .insertDomain
        ((s.setPc n t (.done (.answer 300 storedSynthetic))).commit domains storedId)
  -- A miss, and every way to end without an address.
  | silent {e : DnsEvent} {pc : Pc} (hpc : pc = .lookupAaaa ∨ pc = .done .nxDomain ∨
      pc = .done .servFail ∨ pc = .failed) : DnsTransition s n t e (s.setPc n t pc)

theorem dnsStep_sound {s s' : State} {n : ℕ} {e : DnsEvent} (h : dnsStep s n e = some s') :
    ∃ t, s.tasks[n]? = some t ∧ DnsTransition s n t e s' := by
  obtain ⟨t, ht, hrest⟩ := Option.bind_eq_some_iff.mp h
  clear h
  refine ⟨t, ht, ?_⟩
  split at hrest
  · split at hrest
    · split at hrest <;> cases hrest
      · exact .hit ‹_› ‹_›
      · exact .silent (by simp)
    · cases hrest
      exact .silent (by simp)
    · cases hrest
  · split at hrest
    · split at hrest <;> cases hrest
      · exact .found ‹_›
      · exact .silent (by simp)
      · exact .silent (by simp)
    · cases hrest
  · split at hrest
    · split at hrest <;> cases hrest
      · exact .allocated ‹_› ‹_›
      · exact .silent (by simp)
    · cases hrest
      exact .silent (by simp)
    · cases hrest
  · split at hrest
    · split at hrest <;> cases hrest
      · exact .upserted ‹_› ‹_›
      · exact .silent (by simp)
    · cases hrest
      exact .silent (by simp)
    · cases hrest
  · cases hrest
  · cases hrest

/-! ## The daemon -/

theorem write_eq_some {s s' : State} {domainId : BitVec 32} {origin : Ipv6Addr} {daemon : Daemon}
    (h : s.write domainId origin daemon = some s') :
    ∃ natMap, s.natMap.insert domainId ⟨origin⟩ = some natMap ∧
      s' = { s with natMap := natMap, daemon := daemon } := by
  obtain ⟨natMap, hins, rfl⟩ := Option.map_eq_some_iff.mp h
  exact ⟨natMap, hins, rfl⟩

inductive MainTransition (s : State) : MainEvent → State → Prop
  | start : MainTransition s .start { s with natMap := .empty, daemon := .starting }
  | exit : MainTransition s .exit { s with daemon := .down }
  | select (hd : s.daemon = .starting) :
      MainTransition s .select { s with daemon := .loading s.domains.rows }
  | load {row : Row} {rows : List Row} {natMap : NatMap} (hd : s.daemon = .loading (row :: rows))
      (hins : s.natMap.insert row.domainId ⟨row.originIpv6⟩ = some natMap) :
      MainTransition s .load { s with natMap := natMap, daemon := .loading rows }
  | spawn (hd : s.daemon = .loading []) :
      MainTransition s .spawn { s with daemon := .running ⟨none, .idle⟩ .idle }

theorem mainStep_sound {s s' : State} {e : MainEvent} (h : mainStep s e = some s') :
    MainTransition s e s' := by
  unfold mainStep at h
  split at h
  · cases h
    exact .start
  · cases h
    exact .exit
  · split at h <;> cases h
    exact .select ‹_›
  · split at h
    · obtain ⟨natMap, hins, rfl⟩ := write_eq_some h
      exact .load ‹_› hins
    · cases h
  · split at h <;> cases h
    exact .spawn ‹_›

inductive ListenerTransition (s : State) : ListenerEvent → State → Prop
  | listen {resolver : Resolver} (hd : s.daemon = .running ⟨none, .idle⟩ resolver) :
      ListenerTransition s .listen { s with daemon := .running ⟨some [], .idle⟩ resolver }
  | disconnect {queue : List (BitVec 32)} {handler : Handler} {resolver : Resolver}
      (hd : s.daemon = .running ⟨some queue, handler⟩ resolver) :
      ListenerTransition s .disconnect { s with daemon := .running ⟨none, handler⟩ resolver }
  | recv {domainId : BitVec 32} {queue : List (BitVec 32)} {resolver : Resolver}
      (hd : s.daemon = .running ⟨some (domainId :: queue), .idle⟩ resolver) :
      ListenerTransition s .recv
        { s with daemon := .running ⟨some queue, .fetch domainId⟩ resolver }
  | fetch {queue : Option (List (BitVec 32))} {domainId : BitVec 32} {resolver : Resolver}
      {row : Row} (hd : s.daemon = .running ⟨queue, .fetch domainId⟩ resolver)
      (hrow : s.domains.findById domainId = some row) :
      ListenerTransition s .fetch
        { s with daemon := .running ⟨queue, .insert domainId row.originIpv6⟩ resolver }
  | fetchNone {queue : Option (List (BitVec 32))} {domainId : BitVec 32} {resolver : Resolver}
      (hd : s.daemon = .running ⟨queue, .fetch domainId⟩ resolver)
      (hrow : s.domains.findById domainId = none) :
      ListenerTransition s .fetch { s with daemon := .running ⟨queue, .idle⟩ resolver }
  | fetchError {queue : Option (List (BitVec 32))} {domainId : BitVec 32} {resolver : Resolver}
      (hd : s.daemon = .running ⟨queue, .fetch domainId⟩ resolver) :
      ListenerTransition s .fetchError { s with daemon := .running ⟨none, .idle⟩ resolver }
  | store {queue : Option (List (BitVec 32))} {domainId : BitVec 32} {origin : Ipv6Addr}
      {resolver : Resolver} {natMap : NatMap}
      (hd : s.daemon = .running ⟨queue, .insert domainId origin⟩ resolver)
      (hins : s.natMap.insert domainId ⟨origin⟩ = some natMap) :
      ListenerTransition s .store
        { s with natMap := natMap, daemon := .running ⟨queue, .idle⟩ resolver }
  | storeError {queue : Option (List (BitVec 32))} {domainId : BitVec 32} {origin : Ipv6Addr}
      {resolver : Resolver} (hd : s.daemon = .running ⟨queue, .insert domainId origin⟩ resolver) :
      ListenerTransition s .storeError { s with daemon := .running ⟨queue, .idle⟩ resolver }

theorem listenerStep_sound {s s' : State} {e : ListenerEvent} (h : listenerStep s e = some s') :
    ListenerTransition s e s' := by
  unfold listenerStep at h
  split at h
  · rename_i hd
    split at h
    · split at h <;> cases h
      exact .listen hd
    · split at h <;> cases h
      exact .disconnect hd
    · split at h <;> cases h
      exact .recv hd
    · split at h
      · simp only [Option.some.injEq] at h
        subst h
        split
        · exact .fetch hd ‹_›
        · exact .fetchNone hd ‹_›
      · cases h
    · split at h <;> cases h
      exact .fetchError hd
    · split at h
      · obtain ⟨natMap, hins, rfl⟩ := write_eq_some h
        exact .store hd hins
      · cases h
    · split at h <;> cases h
      exact .storeError hd
  · cases h

inductive ResolverTransition (printsAlike : Ipv6Addr → Bool) (s : State) :
    ResolverEvent → State → Prop
  | tick {listener : Listener} (hd : s.daemon = .running listener .idle) :
      ResolverTransition printsAlike s .tick
        { s with daemon := .running listener (.pass s.domains.rows) }
  | changed {listener : Listener} {row : Row} {rows : List Row} {ip : Ipv6Addr}
      (hd : s.daemon = .running listener (.pass (row :: rows)))
      (hip : originChanged printsAlike row ip = true) :
      ResolverTransition printsAlike s (.lookup (.found ip))
        (State.record { s with daemon := .running listener (.update row.domainId ip rows) }
          row.domain ip)
  | unchanged {listener : Listener} {row : Row} {rows : List Row} {ip : Ipv6Addr}
      (hd : s.daemon = .running listener (.pass (row :: rows)))
      (hip : originChanged printsAlike row ip = false) :
      ResolverTransition printsAlike s (.lookup (.found ip))
        (State.record { s with daemon := .running listener (.pass rows) } row.domain ip)
  | noAnswer {listener : Listener} {row : Row} {rows : List Row} {result : Upstream}
      (hd : s.daemon = .running listener (.pass (row :: rows))) :
      ResolverTransition printsAlike s (.lookup result)
        { s with daemon := .running listener (.pass rows) }
  | update {listener : Listener} {domainId : BitVec 32} {ip : Ipv6Addr} {rows : List Row}
      (hd : s.daemon = .running listener (.update domainId ip rows))
      (hrow : (s.domains.findById domainId).isSome = true) :
      ResolverTransition printsAlike s .update
        (State.commit { s with daemon := .running listener (.remap domainId ip rows) }
          (s.domains.updateOrigin domainId ip) domainId)
  | updateNone {listener : Listener} {domainId : BitVec 32} {ip : Ipv6Addr} {rows : List Row}
      (hd : s.daemon = .running listener (.update domainId ip rows)) :
      ResolverTransition printsAlike s .update
        { s with daemon := .running listener (.remap domainId ip rows) }
  | remap {listener : Listener} {domainId : BitVec 32} {ip : Ipv6Addr} {rows : List Row}
      {natMap : NatMap} (hd : s.daemon = .running listener (.remap domainId ip rows))
      (hins : s.natMap.insert domainId ⟨ip⟩ = some natMap) :
      ResolverTransition printsAlike s .remap
        { s with natMap := natMap, daemon := .running listener (.pass rows) }
  | passError {listener : Listener} {resolver : Resolver}
      (hd : s.daemon = .running listener resolver) :
      ResolverTransition printsAlike s .passError { s with daemon := .running listener .idle }
  | passDone {listener : Listener} (hd : s.daemon = .running listener (.pass [])) :
      ResolverTransition printsAlike s .passDone { s with daemon := .running listener .idle }

theorem resolverStep_sound {printsAlike : Ipv6Addr → Bool} {s s' : State} {e : ResolverEvent}
    (h : resolverStep printsAlike s e = some s') : ResolverTransition printsAlike s e s' := by
  unfold resolverStep at h
  split at h
  · rename_i hd
    split at h
    · split at h <;> cases h
      exact .tick hd
    · split at h
      · split at h <;> cases h
        · split
          · exact .changed hd ‹_›
          · rename_i hip
            exact .unchanged hd (Bool.eq_false_iff.mpr hip)
        · exact .noAnswer hd
      · cases h
    · split at h
      · split at h <;> cases h
        · exact .update hd ‹_›
        · exact .updateNone hd
      · cases h
    · split at h
      · obtain ⟨natMap, hins, rfl⟩ := write_eq_some h
        exact .remap hd hins
      · cases h
    · split at h <;> cases h
      · exact .passError hd
      · exact .passError hd
    · split at h <;> cases h
      exact .passDone hd
  · cases h

/-! ## Writes under way -/

/-- What the bulk load or the listener is about to write to `NAT_MAP`. -/
def Daemon.writes : Daemon → List (BitVec 32 × Ipv6Addr)
  | .loading rows => rows.map fun r ↦ (r.domainId, r.originIpv6)
  | .running ⟨_, .insert domainId origin⟩ _ => [(domainId, origin)]
  | _ => []

def Daemon.resolver : Daemon → Resolver
  | .running _ resolver => resolver
  | _ => .idle

def Resolver.writes : Resolver → List (BitVec 32 × Ipv6Addr)
  | .update domainId ip _ => [(domainId, ip)]
  | .remap domainId ip _ => [(domainId, ip)]
  | _ => []

def Resolver.rows : Resolver → List Row
  | .idle => []
  | .pass rows => rows
  | .update _ _ rows => rows
  | .remap _ _ rows => rows

theorem notify_cases (d : Daemon) (domainId : BitVec 32) :
    (∃ queue handler resolver, d = .running ⟨some queue, handler⟩ resolver ∧
      d.notify domainId = .running ⟨some (queue ++ [domainId]), handler⟩ resolver) ∨
      d.notify domainId = d := by
  unfold Daemon.notify
  split
  · exact .inl ⟨_, _, _, rfl, rfl⟩
  · exact .inr rfl

@[simp] theorem writes_notify (d : Daemon) (domainId : BitVec 32) :
    (d.notify domainId).writes = d.writes := by
  rcases notify_cases d domainId with ⟨queue, handler, resolver, rfl, h⟩ | h <;> rw [h]
  cases handler <;> rfl

theorem writes_running (listener : Listener) (resolver resolver' : Resolver) :
    (Daemon.running listener resolver).writes = (Daemon.running listener resolver').writes := by
  obtain ⟨queue, handler⟩ := listener
  cases handler <;> rfl

@[simp] theorem resolver_notify (d : Daemon) (domainId : BitVec 32) :
    (d.notify domainId).resolver = d.resolver := by
  rcases notify_cases d domainId with ⟨queue, handler, resolver, rfl, h⟩ | h <;> rw [h]
  rfl

end PrototypeNet
