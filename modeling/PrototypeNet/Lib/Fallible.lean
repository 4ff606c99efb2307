import Mathlib

/-!
# Fallible programs over a state that survives failure

`ExceptT ε (StateM σ)` is the shape of a program that may stop early and
whose writes up to that point stay in place.  `exec` runs one; the lemmas let
a straight-line program be evaluated one statement at a time.
-/

namespace Fallible

/-- An error with its contexts, outermost first. -/
abbrev ErrorChain := List String

variable {σ ε α β : Type}

theorem toOption_eq_some_iff {r : Except ε α} {a : α} : r.toOption = some a ↔ r = .ok a := by
  cases r <;> simp [Except.toOption]

def exec (m : ExceptT ε (StateM σ) α) (s : σ) : Except ε α × σ :=
  m.run.run s

@[simp] theorem exec_pure (a : α) (s : σ) :
    exec (pure a : ExceptT ε (StateM σ) α) s = (.ok a, s) := rfl

@[simp] theorem exec_throw (e : ε) (s : σ) :
    exec (throw e : ExceptT ε (StateM σ) α) s = (.error e, s) := rfl

@[simp] theorem exec_get (s : σ) :
    exec (get : ExceptT ε (StateM σ) σ) s = (.ok s, s) := rfl

@[simp] theorem exec_set (t s : σ) :
    exec (set t : ExceptT ε (StateM σ) PUnit) s = (.ok ⟨⟩, t) := rfl

@[simp] theorem exec_modify (f : σ → σ) (s : σ) :
    exec (modify f : ExceptT ε (StateM σ) PUnit) s = (.ok ⟨⟩, f s) := rfl

/-- A statement that succeeds hands its value and its state to the rest. -/
theorem exec_bind_of_ok {m : ExceptT ε (StateM σ) α} {f : α → ExceptT ε (StateM σ) β}
    {s t : σ} {a : α} (h : exec m s = (.ok a, t)) :
    exec (m >>= f) s = exec (f a) t := by
  have hh : m.run.run s = (.ok a, t) := h
  simp only [exec, ExceptT.run_bind, StateT.run_bind, hh]
  rfl

/-- A statement that fails ends the program in the state it left. -/
theorem exec_bind_of_error {m : ExceptT ε (StateM σ) α} {f : α → ExceptT ε (StateM σ) β}
    {s t : σ} {e : ε} (h : exec m s = (.error e, t)) :
    exec (m >>= f) s = (.error e, t) := by
  have hh : m.run.run s = (.error e, t) := h
  simp only [exec, ExceptT.run_bind, StateT.run_bind, hh]
  rfl

theorem exec_tryCatch_of_ok {m : ExceptT ε (StateM σ) α}
    {handler : ε → ExceptT ε (StateM σ) α} {s t : σ} {a : α} (h : exec m s = (.ok a, t)) :
    exec (tryCatch m handler) s = (.ok a, t) := by
  have hh : m.run.run s = (.ok a, t) := h
  simp only [exec, ExceptT.run_tryCatch, StateT.run_bind, hh]
  rfl

theorem exec_tryCatch_of_error {m : ExceptT ε (StateM σ) α}
    {handler : ε → ExceptT ε (StateM σ) α} {s t : σ} {e : ε} (h : exec m s = (.error e, t)) :
    exec (tryCatch m handler) s = exec (handler e) t := by
  have hh : m.run.run s = (.error e, t) := h
  simp only [exec, ExceptT.run_tryCatch, StateT.run_bind, hh]
  rfl

theorem exec_cases (m : ExceptT ε (StateM σ) α) (s : σ) :
    (∃ a t, exec m s = (.ok a, t)) ∨ ∃ e t, exec m s = (.error e, t) := by
  cases hexec : exec m s with
  | mk r t =>
      cases r with
      | ok a => exact .inl ⟨a, t, rfl⟩
      | error e => exact .inr ⟨e, t, rfl⟩

theorem exec_bind_eq_ok {m : ExceptT ε (StateM σ) α} {f : α → ExceptT ε (StateM σ) β}
    {s t : σ} {b : β} (h : exec (m >>= f) s = (.ok b, t)) :
    ∃ a u, exec m s = (.ok a, u) ∧ exec (f a) u = (.ok b, t) := by
  rcases exec_cases m s with ⟨a, u, hexec⟩ | ⟨e, u, hexec⟩
  · rw [exec_bind_of_ok hexec] at h
    exact ⟨a, u, hexec, h⟩
  · rw [exec_bind_of_error hexec] at h
    cases h

/-! ## Pre- and postconditions -/

/-- Started in a state with `P`, the program ends with `Q` of its value and
state, or fails in a state with `E`. -/
structure Triple (P : σ → Prop) (m : ExceptT ε (StateM σ) α) (Q : α → σ → Prop)
    (E : σ → Prop) : Prop where
  ok : ∀ s a t, P s → exec m s = (.ok a, t) → Q a t
  error : ∀ s e t, P s → exec m s = (.error e, t) → E t

namespace Triple

variable {P P' E E' F : σ → Prop} {Q : α → σ → Prop} {R : β → σ → Prop}
variable {m : ExceptT ε (StateM σ) α}

/-- A program that ends in one known way. -/
theorem of_exec_ok {a : σ → α} {f : σ → σ} (hexec : ∀ s, P s → exec m s = (.ok (a s), f s))
    (hQ : ∀ s, P s → Q (a s) (f s)) : Triple P m Q E where
  ok := by
    intro s b t hs h
    obtain ⟨hb, rfl⟩ := Prod.mk.inj ((hexec s hs).symm.trans h)
    cases hb
    exact hQ s hs
  error := by
    intro s e t hs h
    cases (Prod.mk.inj ((hexec s hs).symm.trans h)).1

theorem pure {a : α} (h : ∀ s, P s → Q a s) :
    Triple P (Pure.pure a : ExceptT ε (StateM σ) α) Q E :=
  of_exec_ok (fun s _ ↦ exec_pure a s) h

theorem get {Q : σ → σ → Prop} (h : ∀ s, P s → Q s s) :
    Triple P (MonadState.get : ExceptT ε (StateM σ) σ) Q E :=
  of_exec_ok (fun s _ ↦ exec_get s) h

theorem modify {Q : PUnit → σ → Prop} {f : σ → σ} (h : ∀ s, P s → Q ⟨⟩ (f s)) :
    Triple P (modifyGet (fun s ↦ (⟨⟩, f s)) : ExceptT ε (StateM σ) PUnit) Q E :=
  of_exec_ok (fun s _ ↦ exec_modify f s) h

theorem throw {e : ε} (h : ∀ s, P s → E s) :
    Triple P (MonadExcept.throw e : ExceptT ε (StateM σ) α) Q E where
  ok := by
    intro s a t _ hexec
    cases (Prod.mk.inj hexec).1
  error := by
    intro s e' t hs hexec
    obtain ⟨-, rfl⟩ := Prod.mk.inj hexec
    exact h s hs

theorem bind {f : α → ExceptT ε (StateM σ) β} (hm : Triple P m Q E)
    (hf : ∀ a, Triple (Q a) (f a) R E) : Triple P (m >>= f) R E where
  ok := by
    intro s b t hs h
    rcases exec_cases m s with ⟨a, u, hexec⟩ | ⟨e, u, hexec⟩
    · rw [exec_bind_of_ok hexec] at h
      exact (hf a).ok u b t (hm.ok s a u hs hexec) h
    · rw [exec_bind_of_error hexec] at h
      cases (Prod.mk.inj h).1
  error := by
    intro s e t hs h
    rcases exec_cases m s with ⟨a, u, hexec⟩ | ⟨e', u, hexec⟩
    · rw [exec_bind_of_ok hexec] at h
      exact (hf a).error u e t (hm.ok s a u hs hexec) h
    · rw [exec_bind_of_error hexec] at h
      obtain ⟨-, rfl⟩ := Prod.mk.inj h
      exact hm.error s e' u hs hexec

theorem tryCatch {handler : ε → ExceptT ε (StateM σ) α} (hm : Triple P m Q F)
    (hh : ∀ e, Triple F (handler e) Q E) :
    Triple P (MonadExcept.tryCatch m handler) Q E where
  ok := by
    intro s a t hs h
    rcases exec_cases m s with ⟨b, u, hexec⟩ | ⟨e, u, hexec⟩
    · rw [exec_tryCatch_of_ok hexec] at h
      obtain ⟨hb, rfl⟩ := Prod.mk.inj h
      cases hb
      exact hm.ok s a u hs hexec
    · rw [exec_tryCatch_of_error hexec] at h
      exact (hh e).ok u a t (hm.error s e u hs hexec) h
  error := by
    intro s e t hs h
    rcases exec_cases m s with ⟨b, u, hexec⟩ | ⟨e', u, hexec⟩
    · rw [exec_tryCatch_of_ok hexec] at h
      cases (Prod.mk.inj h).1
    · rw [exec_tryCatch_of_error hexec] at h
      exact (hh e').error u e t (hm.error s e' u hs hexec) h

theorem weaken {Q' : α → σ → Prop} (hm : Triple P m Q E) (hP : ∀ s, P' s → P s)
    (hQ : ∀ a s, Q a s → Q' a s) (hE : ∀ s, E s → E' s) : Triple P' m Q' E' where
  ok s a t hs h := hQ a t (hm.ok s a t (hP s hs) h)
  error s e t hs h := hE t (hm.error s e t (hP s hs) h)

/-- What holds however the program ends, holds of the state it leaves. -/
theorem state (hm : Triple P m (fun _ ↦ E) E) {s : σ} (hs : P s) : E (exec m s).2 := by
  rcases exec_cases m s with ⟨a, t, hexec⟩ | ⟨e, t, hexec⟩
  · rw [hexec]
    exact hm.ok s a t hs hexec
  · rw [hexec]
    exact hm.error s e t hs hexec

end Triple

/-! ## One program at two levels -/

/-- From the state `t` the program `a` does what `b` does from the abstraction
of `t`, and leaves a state with the invariant. -/
structure Simulates {τ : Type} (abs : τ → σ) (I : τ → Prop) (t : τ)
    (a : ExceptT ε (StateM τ) α) (b : ExceptT ε (StateM σ) α) : Prop where
  exec_eq : exec b (abs t) = ((exec a t).1, abs (exec a t).2)
  keeps : I (exec a t).2

namespace Simulates

variable {τ : Type} {abs : τ → σ} {I : τ → Prop} {t : τ}
variable {a : ExceptT ε (StateM τ) α} {b : ExceptT ε (StateM σ) α}

theorem of_exec {r : Except ε α} {t' : τ} (ha : exec a t = (r, t'))
    (hb : exec b (abs t) = (r, abs t')) (hI : I t') : Simulates abs I t a b where
  exec_eq := by rw [ha, hb]
  keeps := by rwa [ha]

theorem pure (v : α) (hI : I t) : Simulates abs I t (Pure.pure v : ExceptT ε (StateM τ) α)
    (Pure.pure v) :=
  of_exec (exec_pure v t) (exec_pure v (abs t)) hI

theorem throw (e : ε) (hI : I t) : Simulates abs I t
    (MonadExcept.throw e : ExceptT ε (StateM τ) α) (MonadExcept.throw e) :=
  of_exec (exec_throw e t) (exec_throw e (abs t)) hI

theorem bind {f : α → ExceptT ε (StateM τ) β} {g : α → ExceptT ε (StateM σ) β}
    (h : Simulates abs I t a b)
    (hf : ∀ v t', exec a t = (.ok v, t') → I t' → Simulates abs I t' (f v) (g v)) :
    Simulates abs I t (a >>= f) (b >>= g) := by
  obtain ⟨heq, hI⟩ := h
  rcases exec_cases a t with ⟨v, t', ha⟩ | ⟨e, t', ha⟩
  · rw [ha] at heq hI
    have hnext := hf v t' ha hI
    constructor
    · rw [exec_bind_of_ok heq, exec_bind_of_ok ha, hnext.exec_eq]
    · rw [exec_bind_of_ok ha]
      exact hnext.keeps
  · rw [ha] at heq hI
    exact of_exec (exec_bind_of_error ha) (exec_bind_of_error heq) hI

theorem tryCatch {f : ε → ExceptT ε (StateM τ) α} {g : ε → ExceptT ε (StateM σ) α}
    (h : Simulates abs I t a b)
    (hf : ∀ e t', exec a t = (.error e, t') → I t' → Simulates abs I t' (f e) (g e)) :
    Simulates abs I t (MonadExcept.tryCatch a f) (MonadExcept.tryCatch b g) := by
  obtain ⟨heq, hI⟩ := h
  rcases exec_cases a t with ⟨v, t', ha⟩ | ⟨e, t', ha⟩
  · rw [ha] at heq hI
    exact of_exec (exec_tryCatch_of_ok ha) (exec_tryCatch_of_ok heq) hI
  · rw [ha] at heq hI
    have hnext := hf e t' ha hI
    constructor
    · rw [exec_tryCatch_of_error heq, exec_tryCatch_of_error ha, hnext.exec_eq]
    · rw [exec_tryCatch_of_error ha]
      exact hnext.keeps

end Simulates

end Fallible
