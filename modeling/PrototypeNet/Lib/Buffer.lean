import Mathlib

/-!
# Windows of a buffer

A buffer is a list.  `window` reads a run of consecutive elements and `patch`
overwrites one, element by element, never changing the length.  A window that
a patch covers reads back what was written, and a window it does not touch is
unchanged.
-/

namespace Buffer

variable {α : Type*}

/-- The `n` elements from position `off` on (fewer where the buffer ends). -/
def window (l : List α) (off n : ℕ) : List α :=
  (l.drop off).take n

/-- Overwrite the elements from `off` on, one position at a time. -/
def patch (l : List α) : ℕ → List α → List α
  | _, [] => l
  | off, x :: xs => patch (l.set off x) (off + 1) xs

theorem length_window (l : List α) (off n : ℕ) (h : off + n ≤ l.length) :
    (window l off n).length = n := by
  rw [window, List.length_take, List.length_drop]
  omega

theorem getElem?_window (l : List α) (off n i : ℕ) :
    (window l off n)[i]? = if i < n then l[off + i]? else none := by
  rw [window, List.getElem?_take, List.getElem?_drop]

theorem window_add (l : List α) (off m n : ℕ) :
    window l off (m + n) = window l off m ++ window l (off + m) n := by
  rw [window, window, window, List.take_add, List.drop_drop]

theorem window_congr {l l' : List α} {off n : ℕ}
    (h : ∀ i, off ≤ i → i < off + n → l[i]? = l'[i]?) :
    window l off n = window l' off n := by
  apply List.ext_getElem?
  intro i
  rw [getElem?_window, getElem?_window]
  by_cases hi : i < n
  · rw [if_pos hi, if_pos hi]
    exact h (off + i) (by omega) (by omega)
  · rw [if_neg hi, if_neg hi]

@[simp] theorem length_patch (l : List α) (off : ℕ) (xs : List α) :
    (patch l off xs).length = l.length := by
  induction xs generalizing l off with
  | nil => rfl
  | cons x xs ih => rw [patch, ih, List.length_set]

theorem getElem?_patch_of_lt (l : List α) {off i : ℕ} (xs : List α) (h : i < off) :
    (patch l off xs)[i]? = l[i]? := by
  induction xs generalizing l off with
  | nil => rfl
  | cons x xs ih =>
      rw [patch, ih _ (by omega), List.getElem?_set_ne (by omega)]

theorem getElem?_patch_of_le (l : List α) {off i : ℕ} (xs : List α)
    (h : off + xs.length ≤ i) : (patch l off xs)[i]? = l[i]? := by
  induction xs generalizing l off with
  | nil => rfl
  | cons x xs ih =>
      rw [List.length_cons] at h
      rw [patch, ih _ (by omega), List.getElem?_set_ne (by omega)]

theorem getElem?_patch (l : List α) {off i : ℕ} (xs : List α)
    (hfit : off + xs.length ≤ l.length) (hi : i < xs.length) :
    (patch l off xs)[off + i]? = xs[i]? := by
  induction xs generalizing l off i with
  | nil => simp at hi
  | cons x xs ih =>
      rw [List.length_cons] at hfit hi
      rw [patch]
      cases i with
      | zero =>
          rw [getElem?_patch_of_lt _ _ (by omega)]
          simp [List.getElem?_set_self (show off < l.length by omega)]
      | succ i =>
          have hidx : off + (i + 1) = off + 1 + i := by omega
          rw [hidx, ih _ (by rw [List.length_set]; omega) (by omega), List.getElem?_cons_succ]

theorem window_patch_self (l : List α) (off : ℕ) (xs : List α) {n : ℕ}
    (hn : xs.length = n) (hfit : off + n ≤ l.length) :
    window (patch l off xs) off n = xs := by
  subst hn
  apply List.ext_getElem?
  intro i
  rw [getElem?_window]
  by_cases hi : i < xs.length
  · rw [if_pos hi, getElem?_patch l xs hfit hi]
  · rw [if_neg hi, List.getElem?_eq_none (by omega)]

theorem window_patch_of_disjoint (l : List α) (off : ℕ) (xs : List α) {off' n : ℕ}
    (h : off' + n ≤ off ∨ off + xs.length ≤ off') :
    window (patch l off xs) off' n = window l off' n := by
  apply window_congr
  intro i hi hi'
  rcases h with h | h
  · exact getElem?_patch_of_lt l xs (by omega)
  · exact getElem?_patch_of_le l xs (by omega)

theorem getElem?_patch_of_disjoint (l : List α) (off : ℕ) (xs : List α) {i : ℕ}
    (h : i < off ∨ off + xs.length ≤ i) : (patch l off xs)[i]? = l[i]? := by
  rcases h with h | h
  · exact getElem?_patch_of_lt l xs h
  · exact getElem?_patch_of_le l xs h

/-! ## Windows of a concatenation -/

theorem window_append_right (a b : List α) {i k n : ℕ} (h : a.length = k) :
    window (a ++ b) (k + i) n = window b i n := by
  subst h
  rw [window, window, ← List.drop_drop, List.drop_left]

theorem window_append_left (a b : List α) {n : ℕ} (h : a.length = n) :
    window (a ++ b) 0 n = a := by
  subst h
  rw [window, List.drop_zero, List.take_left]

end Buffer
