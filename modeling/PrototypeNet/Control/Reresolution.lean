import PrototypeNet.Control.Delivery

/-!
# Flows across a change of the origin

The packet programs keep no state of their own: each packet, in either
direction, is judged by the entry `NAT_MAP` holds at that moment.  Between
restarts an entry is overwritten but never removed, so a flow always has an
origin and keeps its proxy-source address, but it is the current origin that
its packets go to and whose replies are accepted.
-/

namespace PrototypeNet

open Runs Fallible ByteWords

/-! ## Entries stay -/

section Steps

variable {printsAlike : Ipv6Addr → Bool} {s s' : State}

/-- Short of a restart, a step leaves the map alone or inserts one entry. -/
theorem step_natMap {e : Event} (he : e ≠ .main .start)
    (hs : step printsAlike s e = some s') :
    s'.natMap = s.natMap ∨ ∃ i o, s.natMap.insert i ⟨o⟩ = some s'.natMap := by
  cases e with
  | query name =>
      cases hs
      exact .inl rfl
  | dns n e =>
      obtain ⟨t, -, htr⟩ := dnsStep_sound hs
      cases htr <;> exact .inl rfl
  | main e =>
      cases mainStep_sound hs with
      | start => exact absurd rfl he
      | exit => exact .inl rfl
      | select hd => exact .inl rfl
      | load hd hins => exact .inr ⟨_, _, hins⟩
      | spawn hd => exact .inl rfl
  | listener e =>
      cases listenerStep_sound hs with
      | listen hd => exact .inl rfl
      | disconnect hd => exact .inl rfl
      | recv hd => exact .inl rfl
      | fetch hd hrow => exact .inl rfl
      | fetchNone hd hrow => exact .inl rfl
      | fetchError hd => exact .inl rfl
      | store hd hins => exact .inr ⟨_, _, hins⟩
      | storeError hd => exact .inl rfl
  | resolver e =>
      cases resolverStep_sound hs with
      | tick hd => exact .inl rfl
      | changed hd hip => exact .inl rfl
      | unchanged hd hip => exact .inl rfl
      | noAnswer hd => exact .inl rfl
      | update hd hrow => exact .inl rfl
      | updateNone hd => exact .inl rfl
      | remap hd hins => exact .inr ⟨_, _, hins⟩
      | passError hd => exact .inl rfl
      | passDone hd => exact .inl rfl

theorem step_keeps_entry {e : Event} {i : BitVec 32} (h : ∃ o, s.natMap.get i = some ⟨o⟩)
    (he : e ≠ .main .start) (hs : step printsAlike s e = some s') :
    ∃ o, s'.natMap.get i = some ⟨o⟩ := by
  rcases step_natMap he hs with hsame | ⟨j, o, hins⟩
  · rw [hsame]
    exact h
  · rw [BoundedMap.get_insert hins]
    split
    · exact ⟨o, rfl⟩
    · exact h

end Steps

theorem play_keeps_entry {printsAlike : Ipv6Addr → Bool} {es : List Event} {s s' : State}
    {i : BitVec 32} (h : ∃ o, s.natMap.get i = some ⟨o⟩) (hes : Event.main .start ∉ es)
    (hs : play (step printsAlike) s es = some s') : ∃ o, s'.natMap.get i = some ⟨o⟩ := by
  have hne : ∀ e ∈ es, e ≠ Event.main .start := by
    rintro e he rfl
    exact hes he
  have hG : Along (step printsAlike) (fun _ e ↦ e ≠ Event.main .start) s es :=
    along_of_forall hne s
  exact play_invariant_along _ (fun s ↦ ∃ o, s.natMap.get i = some ⟨o⟩)
    (fun _ _ _ hI he hstep ↦ step_keeps_entry hI he hstep) h hG hs

/-! ## Flows under changing maps -/

theorem Flow.eq_of_proxySrc {flow flow' : Flow} {key : ProxySrcKey} {a : Ipv6Addr}
    (h : flow.proxySrc key = some a) (h' : flow'.proxySrc key = some a)
    (hs : flow'.srcPort = flow.srcPort) (hd : flow'.dstPort = flow.dstPort)
    (hp : flow'.proto = flow.proto) : flow' = flow := by
  obtain ⟨c, d, sp, dp, proto⟩ := flow
  obtain ⟨c', d', sp', dp', proto'⟩ := flow'
  simp only at hs hd hp
  subst hs hd hp
  have hids := (decode_of_encode h').symm.trans (decode_of_encode h)
  cases hids
  rfl

/-- With the key unchanged, a flow that was published is published again, under
the same address and with the origin of the moment. -/
theorem Maps.publish_of_publish {m m' : Maps} {flow : Flow} {a o o' : Ipv6Addr}
    (h : m.publish flow = some ⟨a, o, flow.srcPort, flow.dstPort, flow.proto⟩)
    (hkeys : m'.obfsKeys = m.obfsKeys) (hnat : m'.natMap.get flow.domainId = some ⟨o'⟩) :
    m'.publish flow = some ⟨a, o', flow.srcPort, flow.dstPort, flow.proto⟩ := by
  obtain ⟨key, a', o₀, hkey, -, ha, heq⟩ := (m.publish_eq_some_iff flow _).mp h
  cases heq
  have hkey' : m'.activeKey = some key := by
    rw [← hkey, Maps.activeKey, Maps.activeKey, hkeys]
  have ho' : m'.origin flow.domainId = some o' := by
    rw [Maps.origin, hnat, Option.map_some]
  exact (m'.publish_eq_some_iff flow _).mpr ⟨key, a, o', hkey', ho', ha, rfl⟩

theorem tcIngressWan_drops_other (build : Build) {f : Framing} {flow : Flow} {s : Ctx}
    {a o x : Ipv6Addr}
    (hpub : s.maps.publish flow = some ⟨a, o, flow.srcPort, flow.dstPort, flow.proto⟩)
    (h : Carries f ⟨x, a, flow.dstPort, flow.srcPort, flow.proto⟩ s.data) (hx : x ≠ o) :
    exec (tcIngressWan build) s = (.ok .shot, s) := by
  obtain ⟨key, a', o', hkey, ho, ha, heq⟩ := (s.maps.publish_eq_some_iff flow _).mp hpub
  cases heq
  refine tcIngressWan_drops build h (hasPrefix_of_encode ha) ?_
  rw [Option.eq_none_iff_forall_ne_some]
  intro flow' hres
  obtain ⟨key', a', x', hkey', ho', ha', heq⟩ :=
    (s.maps.publish_eq_some_iff flow' _).mp ((s.maps.resolve_iff_publish flow' _).mp hres)
  rw [hkey] at hkey'
  cases hkey'
  obtain ⟨rfl, rfl, hs, hd, hp⟩ := Tuple.mk.inj heq
  obtain rfl := Flow.eq_of_proxySrc ha ha' hs.symm hd.symm hp.symm
  rw [ho] at ho'
  exact hx (Option.some.inj ho').symm

def movedOrigin : Ipv6Addr := Vector.replicate 16 0x21

def moveOrigin : List Event :=
  [.resolver .tick, .resolver (.lookup (.found movedOrigin)), .resolver .update, .resolver .remap]

theorem exists_moveOrigin :
    ∃ s₁ s₂, play (step fun _ ↦ true) (.init 6) demoRun = some s₁ ∧
      play (step fun _ ↦ true) s₁ moveOrigin = some s₂ ∧
      s₁.natMap.get 7 = some ⟨demoOrigin⟩ ∧ s₂.natMap.get 7 = some ⟨movedOrigin⟩ := by
  have h₁ : (play (step fun _ ↦ true) (.init 6) demoRun).map (fun s ↦ s.natMap.get 7) =
      some (some ⟨demoOrigin⟩) := by decide +kernel
  have h₂ : (play (step fun _ ↦ true) (.init 6) (demoRun ++ moveOrigin)).map
      (fun s ↦ s.natMap.get 7) = some (some ⟨movedOrigin⟩) := by decide +kernel
  obtain ⟨s₁, hs₁, hget₁⟩ := Option.map_eq_some_iff.mp h₁
  obtain ⟨s₂, hs₂, hget₂⟩ := Option.map_eq_some_iff.mp h₂
  rw [play_append, hs₁] at hs₂
  exact ⟨s₁, s₂, hs₁, hs₂, hget₁, hget₂⟩

end PrototypeNet
