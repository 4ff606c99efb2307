import PrototypeNet.Control.Transitions

/-!
# Ids and synthetic addresses are given out once

The table only ever grows, a row keeps its id, its domain and its synthetic
address, and the address is always the one computed from the id.  An answer
of the DNS server therefore stays right for the rest of the run, whichever of
several racing calls has created the row.
-/

namespace PrototypeNet

open Runs

/-! ## Frames: what each activity leaves alone -/

section Frames

variable {printsAlike : Ipv6Addr → Bool} {s s' : State}

theorem MainTransition.frame {e : MainEvent} (h : MainTransition s e s') :
    s'.domains = s.domains ∧ s'.tasks = s.tasks ∧ s'.lookups = s.lookups := by
  cases h <;> exact ⟨rfl, rfl, rfl⟩

theorem ListenerTransition.frame {e : ListenerEvent} (h : ListenerTransition s e s') :
    s'.domains = s.domains ∧ s'.tasks = s.tasks ∧ s'.lookups = s.lookups := by
  cases h <;> exact ⟨rfl, rfl, rfl⟩

theorem ResolverTransition.frame {e : ResolverEvent} (h : ResolverTransition printsAlike s e s') :
    (s'.domains = s.domains ∨ ∃ i ip, s'.domains = s.domains.updateOrigin i ip) ∧
      s'.tasks = s.tasks ∧ s.lookups ⊆ s'.lookups := by
  cases h with
  | tick hd => exact ⟨.inl rfl, rfl, List.Subset.refl _⟩
  | changed hd hip => exact ⟨.inl rfl, rfl, List.subset_append_left _ _⟩
  | unchanged hd hip => exact ⟨.inl rfl, rfl, List.subset_append_left _ _⟩
  | noAnswer hd => exact ⟨.inl rfl, rfl, List.Subset.refl _⟩
  | update hd hrow => exact ⟨.inr ⟨_, _, rfl⟩, rfl, List.Subset.refl _⟩
  | updateNone hd => exact ⟨.inl rfl, rfl, List.Subset.refl _⟩
  | remap hd hins => exact ⟨.inl rfl, rfl, List.Subset.refl _⟩
  | passError hd => exact ⟨.inl rfl, rfl, List.Subset.refl _⟩
  | passDone hd => exact ⟨.inl rfl, rfl, List.Subset.refl _⟩

/-- What is once allocated or looked up stays so. -/
structure State.Grows (s s' : State) : Prop where
  allocation : s.domains.allocation ≤ s'.domains.allocation
  lookups : s.lookups ⊆ s'.lookups

theorem DnsTransition.grows {n : ℕ} {t : Task} {e : DnsEvent}
    (h : DnsTransition s n t e s') : s.Grows s' := by
  cases h with
  | hit hpc hrow => exact ⟨le_refl _, List.Subset.refl _⟩
  | found hpc => exact ⟨le_refl _, List.subset_append_left _ _⟩
  | allocated hpc hv => exact ⟨le_refl _, List.Subset.refl _⟩
  | upserted hpc hins => exact ⟨(Domains.commit_insertDomain hins).allocation, List.Subset.refl _⟩
  | silent hpc => exact ⟨le_refl _, List.Subset.refl _⟩

theorem ResolverTransition.grows {e : ResolverEvent} (h : ResolverTransition printsAlike s e s') :
    s.Grows s' := by
  obtain ⟨hdom, -, hlook⟩ := h.frame
  refine ⟨?_, hlook⟩
  rcases hdom with hdom | ⟨i, ip, hdom⟩ <;> rw [hdom]
  exact (Domains.commit_updateOrigin _ i ip).allocation

theorem step_grows {e : Event} (h : step printsAlike s e = some s') : s.Grows s' := by
  cases e with
  | query name =>
      cases h
      exact ⟨le_refl _, List.Subset.refl _⟩
  | dns n e =>
      obtain ⟨t, -, ht⟩ := dnsStep_sound h
      exact ht.grows
  | main e =>
      obtain ⟨hdom, -, hlook⟩ := (mainStep_sound h).frame
      exact ⟨by rw [hdom], by rw [hlook]; exact List.Subset.refl _⟩
  | listener e =>
      obtain ⟨hdom, -, hlook⟩ := (listenerStep_sound h).frame
      exact ⟨by rw [hdom], by rw [hlook]; exact List.Subset.refl _⟩
  | resolver e => exact (resolverStep_sound h).grows

end Frames

/-! ## Addresses follow ids -/

def Domains.Addressed (d : Domains) : Prop :=
  ∀ r ∈ d.rows, r.syntheticIpv6 = syntheticIpv6 r.domainId

theorem Domains.Addressed.updateOrigin {d : Domains} (h : d.Addressed) (i : BitVec 32)
    (ip : Ipv6Addr) : (d.updateOrigin i ip).Addressed := by
  intro r hr
  rcases mem_updateOrigin hr with ⟨hr, -⟩ | ⟨r₀, hr₀, -, rfl⟩
  · exact h r hr
  · exact h r₀ hr₀

theorem Domains.Addressed.insertDomain {d d' : Domains} {i storedId : BitVec 32} {domain : String}
    {origin storedSynthetic : Ipv6Addr} {ttl : BitVec 32} (h : d.Addressed)
    (hins : d.insertDomain i domain origin (syntheticIpv6 i) ttl =
      some (d', storedId, storedSynthetic)) : d'.Addressed := by
  intro r hr
  rcases insertDomain_eq_some hins with ⟨r₁, -, -, rfl, -, -⟩ | ⟨hrows, -, -⟩
  · rcases mem_refresh hr with ⟨hr, -⟩ | ⟨r₀, hr₀, -, rfl⟩
    · exact h r hr
    · exact h r₀ hr₀
  · rw [hrows] at hr
    rcases List.mem_append.mp hr with hr | hr
    · exact h r hr
    · rw [List.mem_singleton.mp hr]

/-- If the call has answered, it was with the address allocated to its domain. -/
def Task.AnswersFrom (t : Task) (allocation : String ≃. BitVec 32) : Prop :=
  ∀ ttl a, t.pc = .done (.answer ttl a) → ∃ i ∈ allocation t.domain, a = syntheticIpv6 i

theorem Task.AnswersFrom.mono {t : Task} {f g : String ≃. BitVec 32} (h : t.AnswersFrom f)
    (hfg : f ≤ g) : t.AnswersFrom g := by
  intro ttl a hpc
  obtain ⟨i, hi, rfl⟩ := h ttl a hpc
  exact ⟨i, hfg t.domain i hi, rfl⟩

structure State.Allocated (s : State) : Prop where
  addressed : s.domains.Addressed
  answers : ∀ t ∈ s.tasks, t.AnswersFrom s.domains.allocation

theorem allocated_init (lastValue : ℕ) : (State.init lastValue).Allocated :=
  ⟨fun _ hr ↦ absurd hr List.not_mem_nil, fun _ ht ↦ absurd ht List.not_mem_nil⟩

theorem mem_setPc {s : State} {n : ℕ} {t t' : Task} {pc : Pc}
    (h : t' ∈ (s.setPc n t pc).tasks) : t' ∈ s.tasks ∨ t' = { t with pc := pc } :=
  List.mem_or_eq_of_mem_set h

theorem answers_setPc {s : State} {n : ℕ} {t : Task} {pc : Pc} {g : String ≃. BitVec 32}
    (h : ∀ t ∈ s.tasks, t.AnswersFrom s.domains.allocation) (hg : s.domains.allocation ≤ g)
    (hpc : Task.AnswersFrom { t with pc := pc } g) :
    ∀ t' ∈ (s.setPc n t pc).tasks, t'.AnswersFrom g := by
  intro t' ht'
  rcases mem_setPc ht' with ht' | rfl
  · exact (h t' ht').mono hg
  · exact hpc

theorem DnsTransition.keeps_allocated {s s' : State} {n : ℕ} {t : Task} {e : DnsEvent}
    (hs : DnsTransition s n t e s') (h : s.Allocated) : s'.Allocated := by
  obtain ⟨hrows, hans⟩ := h
  cases hs with
  | hit hpc hrow =>
      refine ⟨hrows, answers_setPc hans (le_refl _) ?_⟩
      rintro ttl a heq
      cases heq
      obtain ⟨hmem, hdom⟩ := Domains.mem_of_findByDomain hrow
      exact ⟨_, Domains.mem_allocation_iff.mpr ⟨_, hmem, hdom, rfl⟩, hrows _ hmem⟩
  | found hpc =>
      exact ⟨hrows, answers_setPc hans (le_refl _) (by rintro ttl a ⟨⟩)⟩
  | allocated hpc hv =>
      exact ⟨hrows, answers_setPc hans (le_refl _) (by rintro ttl a ⟨⟩)⟩
  | upserted hpc hins =>
      have hrows' := hrows.insertDomain hins
      refine ⟨hrows', answers_setPc hans (Domains.commit_insertDomain hins).allocation ?_⟩
      rintro ttl a heq
      cases heq
      obtain ⟨r, hr, hdom, hid, rfl, -⟩ := Domains.stored_insertDomain hins
      exact ⟨r.domainId, Domains.mem_allocation_iff.mpr ⟨r, hr, hdom, rfl⟩, hrows' r hr⟩
  | silent hpc =>
      refine ⟨hrows, answers_setPc hans (le_refl _) ?_⟩
      rintro ttl a heq
      rcases hpc with rfl | rfl | rfl | rfl <;> cases heq

theorem step_allocated {printsAlike : Ipv6Addr → Bool} {s s' : State} {e : Event}
    (h : s.Allocated) (hs : step printsAlike s e = some s') : s'.Allocated := by
  have hgrows := step_grows hs
  cases e with
  | query name =>
      cases hs
      refine ⟨h.addressed, ?_⟩
      intro t ht
      rcases List.mem_append.mp ht with ht | ht
      · exact h.answers t ht
      · rw [List.mem_singleton.mp ht]
        rintro ttl a ⟨⟩
  | dns n e =>
      obtain ⟨t, -, ht⟩ := dnsStep_sound hs
      exact ht.keeps_allocated h
  | main e =>
      obtain ⟨hdom, htasks, -⟩ := (mainStep_sound hs).frame
      exact ⟨by rw [hdom]; exact h.addressed, by rw [hdom, htasks]; exact h.answers⟩
  | listener e =>
      obtain ⟨hdom, htasks, -⟩ := (listenerStep_sound hs).frame
      exact ⟨by rw [hdom]; exact h.addressed, by rw [hdom, htasks]; exact h.answers⟩
  | resolver e =>
      obtain ⟨hdom, htasks, -⟩ := (resolverStep_sound hs).frame
      refine ⟨?_, ?_⟩
      · rcases hdom with hdom | ⟨i, ip, hdom⟩ <;> rw [hdom]
        · exact h.addressed
        · exact h.addressed.updateOrigin i ip
      · rw [htasks]
        intro t ht
        exact (h.answers t ht).mono hgrows.allocation

theorem allocated_of_play {printsAlike : Ipv6Addr → Bool} {lastValue : ℕ} {es : List Event}
    {s : State} (h : play (step printsAlike) (.init lastValue) es = some s) : s.Allocated :=
  play_invariant State.Allocated (fun _ _ _ hI hs ↦ step_allocated hI hs)
    (allocated_init lastValue) h

/-- Over any run, from any position of the sequence: at most one row for each
domain, addresses computed from the ids and pairwise distinct, and answers that
agree with each other and with the row stored for the name. -/
theorem synthetic_addresses_stable (printsAlike : Ipv6Addr → Bool) (lastValue : ℕ)
    (es : List Event) (s : State)
    (h : play (step printsAlike) (.init lastValue) es = some s) :
    (s.domains.rows.map Row.domain).Nodup ∧
      (∀ r ∈ s.domains.rows, r.syntheticIpv6 = syntheticIpv6 r.domainId) ∧
      (s.domains.rows.map Row.syntheticIpv6).Nodup ∧
      (∀ t ∈ s.tasks, ∀ ttl a, t.pc = .done (.answer ttl a) →
        ∃ r ∈ s.domains.rows, r.domain = normalize t.name ∧ r.syntheticIpv6 = a) ∧
      ∀ t ∈ s.tasks, ∀ t' ∈ s.tasks, normalize t.name = normalize t'.name →
        ∀ ttl a ttl' a', t.pc = .done (.answer ttl a) → t'.pc = .done (.answer ttl' a') →
          a = a' := by
  obtain ⟨hrows, hans⟩ := allocated_of_play h
  have hsynthetic : s.domains.rows.map Row.syntheticIpv6 =
      (s.domains.rows.map Row.domainId).map syntheticIpv6 := by
    rw [List.map_map]
    exact List.map_congr_left hrows
  refine ⟨s.domains.uniqueDomain, hrows, ?_, ?_, ?_⟩
  · rw [hsynthetic]
    exact s.domains.uniqueDomainId.map syntheticIpv6_injective
  · intro t ht ttl a hpc
    obtain ⟨i, hi, rfl⟩ := hans t ht ttl a hpc
    obtain ⟨r, hr, hdom, rfl⟩ := Domains.mem_allocation_iff.mp hi
    exact ⟨r, hr, hdom, hrows r hr⟩
  · intro t ht t' ht' hname ttl a ttl' a' hpc hpc'
    obtain ⟨i, hi, rfl⟩ := hans t ht ttl a hpc
    obtain ⟨i', hi', rfl⟩ := hans t' ht' ttl' a' hpc'
    have hdomain : t.domain = t'.domain := hname
    rw [hdomain] at hi
    rw [Option.mem_unique hi hi']

/-- Two calls for one name miss the table and allocate an id each; the sequence
has outgrown 32 bits. -/
def racingQueries : List Event :=
  [.query "A.", .query "a", .dns 0 .findByDomain, .dns 1 .findByDomain,
    .dns 0 (.lookupAaaa (.found (Vector.replicate 16 1))),
    .dns 1 (.lookupAaaa (.found (Vector.replicate 16 2))), .dns 0 .nextDomainId,
    .dns 1 .nextDomainId, .dns 1 .insertDomain, .dns 0 .insertDomain]

theorem synthetic_addresses_stable_race :
    ∃ s, play (step fun _ ↦ true) (.init (2 ^ 32 + 4)) racingQueries = some s ∧
      s.tasks.map Task.pc = [.done (.answer 300 (syntheticIpv6 6)),
        .done (.answer 300 (syntheticIpv6 6))] ∧
      (s.domains.rows.map Row.syntheticIpv6).Nodup := by
  have hrun : (play (step fun _ ↦ true) (.init (2 ^ 32 + 4)) racingQueries).map
      (fun s ↦ s.tasks.map Task.pc) = some [.done (.answer 300 (syntheticIpv6 6)),
        .done (.answer 300 (syntheticIpv6 6))] := by
    decide +kernel
  obtain ⟨s, hs, htasks⟩ := Option.map_eq_some_iff.mp hrun
  exact ⟨s, hs, htasks, (synthetic_addresses_stable _ _ _ s hs).2.2.1⟩

end PrototypeNet
