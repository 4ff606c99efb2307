import Mathlib

/-!
# Runs of a labelled transition system

A system is a partial step function: in state `s` the event `e` is either
impossible or leads to one next state.  `play` follows a list of events, and
`Along` says that every step of a run meets a side condition on the state it
starts from and its event.  Each rule reduces a statement about whole runs to
one about a single step.
-/

namespace Runs

variable {σ ε : Type*} (step : σ → ε → Option σ)

/-- Follow a list of events; `none` as soon as one of them is impossible. -/
def play : σ → List ε → Option σ
  | s, [] => some s
  | s, e :: es =>
      match step s e with
      | some t => play t es
      | none => none

/-- Every step of the run from `s` meets the side condition `G`. -/
def Along (G : σ → ε → Prop) : σ → List ε → Prop
  | _, [] => True
  | s, e :: es =>
      G s e ∧ match step s e with
        | some t => Along G t es
        | none => True

def decidableAlong (G : σ → ε → Prop) [hG : ∀ s e, Decidable (G s e)] :
    (s : σ) → (es : List ε) → Decidable (Along step G s es)
  | _, [] => .isTrue trivial
  | s, e :: es =>
      match h : step s e with
      | some t =>
          have := decidableAlong G t es
          decidable_of_iff (G s e ∧ Along step G t es) (by simp [Along, h])
      | none => decidable_of_iff (G s e) (by simp [Along, h])

instance (G : σ → ε → Prop) [∀ s e, Decidable (G s e)] (s : σ) (es : List ε) :
    Decidable (Along step G s es) :=
  decidableAlong step G s es

variable {step}

theorem play_cons {s t : σ} {e : ε} {es : List ε} (h : play step s (e :: es) = some t) :
    ∃ u, step s e = some u ∧ play step u es = some t := by
  cases hs : step s e with
  | none => simp [play, hs] at h
  | some u => exact ⟨u, rfl, by simpa [play, hs] using h⟩

theorem play_append (s : σ) (es es' : List ε) :
    play step s (es ++ es') = (play step s es).bind fun t ↦ play step t es' := by
  induction es generalizing s with
  | nil => rfl
  | cons e es ih =>
      cases hs : step s e with
      | none => simp [play, hs]
      | some t => simpa [play, hs] using ih t

theorem play_concat {s t : σ} {es : List ε} {e : ε} (h : play step s (es ++ [e]) = some t) :
    ∃ u, play step s es = some u ∧ step u e = some t := by
  rw [play_append] at h
  obtain ⟨u, hu, hlast⟩ := Option.bind_eq_some_iff.mp h
  obtain ⟨v, hv, hnil⟩ := play_cons hlast
  cases hnil
  exact ⟨u, hu, hv⟩

theorem Along.cons {G : σ → ε → Prop} {s u : σ} {e : ε} {es : List ε}
    (h : Along step G s (e :: es)) (hs : step s e = some u) :
    G s e ∧ Along step G u es := by
  simpa [Along, hs] using h

theorem Along.append {G : σ → ε → Prop} {s t : σ} {es es' : List ε}
    (h : Along step G s (es ++ es')) (hs : play step s es = some t) :
    Along step G s es ∧ Along step G t es' := by
  induction es generalizing s with
  | nil =>
      cases hs
      exact ⟨trivial, h⟩
  | cons e es ih =>
      obtain ⟨u, hu, hplay⟩ := play_cons hs
      obtain ⟨he, hrest⟩ := Along.cons h hu
      obtain ⟨hes, hes'⟩ := ih hrest hplay
      exact ⟨⟨he, by simpa only [hu] using hes⟩, hes'⟩

theorem along_of_forall {P : ε → Prop} {es : List ε} (h : ∀ e ∈ es, P e) (s : σ) :
    Along step (fun _ e ↦ P e) s es := by
  induction es generalizing s with
  | nil => trivial
  | cons e es ih =>
      refine ⟨h e List.mem_cons_self, ?_⟩
      split
      · exact ih (fun e he ↦ h e (List.mem_cons_of_mem _ he)) _
      · trivial

/-- What every step under the side condition keeps, every run whose steps all
meet it keeps. -/
theorem play_invariant_along (G : σ → ε → Prop) (I : σ → Prop)
    (hstep : ∀ s e t, I s → G s e → step s e = some t → I t)
    {s t : σ} {es : List ε} (hs : I s) (hG : Along step G s es)
    (h : play step s es = some t) : I t := by
  induction es generalizing s with
  | nil =>
      cases h
      exact hs
  | cons e es ih =>
      obtain ⟨u, hu, hplay⟩ := play_cons h
      obtain ⟨he, hG'⟩ := hG.cons hu
      exact ih (hstep s e u hs he hu) hG' hplay

theorem play_invariant (I : σ → Prop)
    (hstep : ∀ s e t, I s → step s e = some t → I t)
    {s t : σ} {es : List ε} (hs : I s) (h : play step s es = some t) : I t := by
  have hG : Along step (fun _ _ ↦ True) s es := along_of_forall (fun _ _ ↦ trivial) s
  exact play_invariant_along _ I (fun s e t hI _ hst ↦ hstep s e t hI hst) hs hG h

/-- The events of another system that stand behind the steps of a run, at most
one for each. -/
def project {δ : Type*} (step : σ → ε → Option σ) (g : σ → ε → Option δ) : σ → List ε → List δ
  | _, [] => []
  | s, e :: es =>
      (g s e).toList ++ match step s e with
        | some t => project step g t es
        | none => []

/-- If every step from a state with the invariant keeps it and projects to the
step of the other system that stands behind it, runs project to runs. -/
theorem play_project_of_invariant {τ δ : Type*} {other : τ → δ → Option τ} (f : σ → τ)
    (g : σ → ε → Option δ) (I : σ → Prop)
    (hstep : ∀ s e t, I s → step s e = some t →
      I t ∧ play other (f s) (g s e).toList = some (f t))
    {s t : σ} {es : List ε} (hs : I s) (h : play step s es = some t) :
    I t ∧ play other (f s) (project step g s es) = some (f t) := by
  induction es generalizing s with
  | nil =>
      cases h
      exact ⟨hs, rfl⟩
  | cons e es ih =>
      obtain ⟨u, hu, hplay⟩ := play_cons h
      obtain ⟨hIu, hbehind⟩ := hstep s e u hs hu
      obtain ⟨hIt, hrest⟩ := ih hIu hplay
      exact ⟨hIt, by simp only [project, hu, play_append, hbehind, Option.bind_some, hrest]⟩

theorem play_project {τ δ : Type*} {other : τ → δ → Option τ} (f : σ → τ)
    (g : σ → ε → Option δ)
    (hstep : ∀ s e t, step s e = some t → play other (f s) (g s e).toList = some (f t))
    {s t : σ} {es : List ε} (h : play step s es = some t) :
    play other (f s) (project step g s es) = some (f t) :=
  (play_project_of_invariant f g (fun _ ↦ True) (fun s e t _ hs ↦ ⟨trivial, hstep s e t hs⟩)
    trivial h).2

end Runs
