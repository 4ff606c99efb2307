import Mathlib

/-!
# Partial transducers

A transducer reads one letter after another, moves from state to state and
writes some output at each step; it may also reject a letter.  A run over a
concatenation is two runs, and what every step keeps, a run keeps.
-/

namespace Transducer

variable {σ τ α β γ : Type*} (step : σ → α → Option (List β × σ))

def run : σ → List α → Option (List β × σ)
  | s, [] => some ([], s)
  | s, a :: as =>
      (step s a).bind fun first ↦
        (run first.2 as).map fun rest ↦ (first.1 ++ rest.1, rest.2)

variable {step}

theorem run_cons_of_some {s t : σ} {a : α} {as : List α} {out : List β}
    (h : step s a = some (out, t)) :
    run step s (a :: as) = (run step t as).map fun rest ↦ (out ++ rest.1, rest.2) := by
  rw [run, h]
  rfl

theorem run_cons {s u : σ} {a : α} {as : List α} {out : List β}
    (h : run step s (a :: as) = some (out, u)) :
    ∃ out₁ t out₂, step s a = some (out₁, t) ∧ run step t as = some (out₂, u) ∧
      out = out₁ ++ out₂ := by
  obtain ⟨⟨out₁, t⟩, hstep, hrest⟩ := Option.bind_eq_some_iff.mp h
  obtain ⟨⟨out₂, v⟩, hrun, heq⟩ := Option.map_eq_some_iff.mp hrest
  cases heq
  exact ⟨out₁, t, out₂, hstep, hrun, rfl⟩

theorem run_append_of_some {s t : σ} {as bs : List α} {out : List β}
    (h : run step s as = some (out, t)) :
    run step s (as ++ bs) = (run step t bs).map fun rest ↦ (out ++ rest.1, rest.2) := by
  induction as generalizing s out with
  | nil =>
      cases h
      simp
  | cons a as ih =>
      obtain ⟨out₁, t', out₂, hstep, hrun, rfl⟩ := run_cons h
      rw [List.cons_append, run_cons_of_some hstep, ih hrun]
      cases run step t bs <;> simp

theorem run_append {s t u : σ} {as bs : List α} {out out' : List β}
    (has : run step s as = some (out, t)) (hbs : run step t bs = some (out', u)) :
    run step s (as ++ bs) = some (out ++ out', u) := by
  rw [run_append_of_some has, hbs]
  rfl

theorem run_of_append {s u : σ} {as bs : List α} {out : List β}
    (h : run step s (as ++ bs) = some (out, u)) :
    ∃ out₁ t out₂, run step s as = some (out₁, t) ∧ run step t bs = some (out₂, u) ∧
      out = out₁ ++ out₂ := by
  induction as generalizing s out with
  | nil => exact ⟨[], s, out, rfl, h, rfl⟩
  | cons a as ih =>
      obtain ⟨out₁, s', out₂, hstep, hrun, rfl⟩ := run_cons h
      obtain ⟨out₃, t, out₄, has, hbs, rfl⟩ := ih hrun
      refine ⟨out₁ ++ out₃, t, out₄, ?_, hbs, (List.append_assoc ..).symm⟩
      rw [run_cons_of_some hstep, has]
      rfl

/-- Two transducers in a row, the second reading what the first writes. -/
theorem run_run_of_append {next : τ → β → Option (List γ × τ)} {s u : σ} {t v : τ}
    {as as' : List α} {bs : List β} {cs : List γ} (h : run step s (as ++ as') = some (bs, u))
    (hnext : run next t bs = some (cs, v)) :
    ∃ bs₁ s₁ cs₁ t₁ bs₂ cs₂, run step s as = some (bs₁, s₁) ∧ run next t bs₁ = some (cs₁, t₁) ∧
      run step s₁ as' = some (bs₂, u) ∧ run next t₁ bs₂ = some (cs₂, v) ∧ cs = cs₁ ++ cs₂ := by
  obtain ⟨bs₁, s₁, bs₂, has, has', rfl⟩ := run_of_append h
  obtain ⟨cs₁, t₁, cs₂, hbs₁, hbs₂, rfl⟩ := run_of_append hnext
  exact ⟨bs₁, s₁, cs₁, t₁, bs₂, cs₂, has, hbs₁, has', hbs₂, rfl⟩

/-- An invariant of the state, and a property of the output that each step
ensures in states where the invariant holds. -/
theorem run_induction {P : σ → Prop} {Q : β → Prop} {s t : σ} {as : List α} {out : List β}
    (hstep : ∀ a ∈ as, ∀ s out t, P s → step s a = some (out, t) → P t ∧ ∀ b ∈ out, Q b)
    (hs : P s) (h : run step s as = some (out, t)) : P t ∧ ∀ b ∈ out, Q b := by
  induction as generalizing s out with
  | nil =>
      cases h
      exact ⟨hs, fun b hb ↦ absurd hb List.not_mem_nil⟩
  | cons a as ih =>
      obtain ⟨out₁, s', out₂, hfirst, hrun, rfl⟩ := run_cons h
      obtain ⟨hs', hout₁⟩ := hstep a List.mem_cons_self s out₁ s' hs hfirst
      obtain ⟨ht, hout₂⟩ := ih (fun b hb ↦ hstep b (List.mem_cons_of_mem _ hb)) hs' hrun
      refine ⟨ht, fun b hb ↦ ?_⟩
      rcases List.mem_append.mp hb with hb | hb
      · exact hout₁ b hb
      · exact hout₂ b hb

end Transducer
