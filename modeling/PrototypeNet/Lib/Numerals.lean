import Mathlib

/-!
# Numerals at the front of a text

`readNumber` takes the digits a text begins with, no more of them than a given
number, and leaves the rest; it is the number reader of an address parser.  It
reads back what `Nat.toDigits` prints, and it stops where the digits stop.
-/

namespace Numerals

/-- The value of a digit of either case, if it is one in this base. -/
def toDigit (radix : ℕ) (c : Char) : Option ℕ :=
  let n := c.toNat
  (if 48 ≤ n ∧ n ≤ 57 then some (n - 48)
    else if 97 ≤ n ∧ n ≤ 122 then some (n - 87)
    else if 65 ≤ n ∧ n ≤ 90 then some (n - 55)
    else none).filter (· < radix)

/-- Go on reading digits, with a value and a count so far; too many of them are
refused. -/
def readDigits (radix maxDigits : ℕ) : ℕ → ℕ → List Char → Option (ℕ × ℕ × List Char)
  | value, count, [] => some (value, count, [])
  | value, count, c :: cs =>
      match toDigit radix c with
      | some d =>
          if maxDigits < count + 1 then none
          else readDigits radix maxDigits (value * radix + d) (count + 1) cs
      | none => some (value, count, c :: cs)

def readNumber (radix maxDigits : ℕ) (allowZeroPrefix : Bool) (limit : ℕ) (cs : List Char) :
    Option (ℕ × List Char) :=
  match readDigits radix maxDigits 0 0 cs with
  | none => none
  | some (value, count, rest) =>
      if count = 0 then none
      else if allowZeroPrefix = false ∧ cs.head? = some '0' ∧ 1 < count then none
      else if value < limit then some (value, rest) else none

def isDigitOf (radix : ℕ) (c : Char) : Bool :=
  (toDigit radix c).isSome

/-- The text does not begin with a digit. -/
def Ends (radix : ℕ) (rest : List Char) : Prop :=
  ∀ c ∈ rest.head?, isDigitOf radix c = false

theorem ends_nil (radix : ℕ) : Ends radix [] := by
  rintro c ⟨⟩

theorem ends_cons {radix : ℕ} {c : Char} (h : isDigitOf radix c = false) (rest : List Char) :
    Ends radix (c :: rest) := by
  rintro d ⟨⟩
  exact h

theorem toNat_of_isDigitOf {radix : ℕ} {c : Char} (h : isDigitOf radix c = true) :
    48 ≤ c.toNat ∧ c.toNat ≤ 122 := by
  by_contra hrange
  have hnone : toDigit radix c = none := by
    simp only [toDigit]
    rw [if_neg (by omega), if_neg (by omega), if_neg (by omega)]
    rfl
  rw [isDigitOf, hnone] at h
  cases h

theorem isDigitOf_colon (radix : ℕ) : isDigitOf radix ':' = false := rfl

theorem isDigitOf_dot (radix : ℕ) : isDigitOf radix '.' = false := rfl

section Reading

variable {radix maxDigits : ℕ}

/-- The reader stops where the digits stop. -/
theorem rest_of_readDigits {value count v n : ℕ} {cs rest : List Char}
    (h : readDigits radix maxDigits value count cs = some (v, n, rest)) :
    rest = cs.dropWhile (isDigitOf radix) := by
  induction cs generalizing value count with
  | nil =>
      cases h
      rfl
  | cons c cs ih =>
      unfold readDigits at h
      cases hd : toDigit radix c with
      | none =>
          rw [hd] at h
          cases h
          rw [List.dropWhile_cons_of_neg (by simp [isDigitOf, hd])]
      | some d =>
          rw [hd] at h
          rw [List.dropWhile_cons_of_pos (by simp [isDigitOf, hd])]
          simp only at h
          split at h
          · cases h
          · exact ih h

theorem rest_of_readNumber {allowZeroPrefix : Bool} {limit v : ℕ} {cs rest : List Char}
    (h : readNumber radix maxDigits allowZeroPrefix limit cs = some (v, rest)) :
    rest = cs.dropWhile (isDigitOf radix) := by
  unfold readNumber at h
  split at h
  · cases h
  · rename_i value count rest' hread
    split_ifs at h
    cases h
    exact rest_of_readDigits hread

theorem readDigits_of_ends {value count : ℕ} {rest : List Char} (h : Ends radix rest) :
    readDigits radix maxDigits value count rest = some (value, count, rest) := by
  cases rest with
  | nil => rfl
  | cons c rest =>
      have hc : toDigit radix c = none := Option.not_isSome_iff_eq_none.mp (by
        rw [Bool.not_eq_true]
        exact h c rfl)
      simp only [readDigits, hc]

/-- Without a digit in front there is no number. -/
theorem readNumber_of_ends {allowZeroPrefix : Bool} {limit : ℕ} {rest : List Char}
    (h : Ends radix rest) : readNumber radix maxDigits allowZeroPrefix limit rest = none := by
  unfold readNumber
  rw [readDigits_of_ends h]
  rfl

end Reading

/-! ## Printed numerals -/

section Printing

variable {radix maxDigits : ℕ}

theorem toDigit_digitChar {d : ℕ} (hd : d < radix) (hradix : radix ≤ 16) :
    toDigit radix d.digitChar = some d := by
  have hd₁₆ : d < 16 := by omega
  have hsome : toDigit radix d.digitChar = (some d).filter (· < radix) := by
    interval_cases d <;> rfl
  rw [hsome, Option.filter_some, if_pos (by simpa using hd)]

/-- The value of the digits, read on from `value`. -/
theorem readDigits_append {ds : List ℕ} (hds : ∀ d ∈ ds, d < radix) (hradix : radix ≤ 16)
    {value count : ℕ} (hcount : count + ds.length ≤ maxDigits) (rest : List Char) :
    readDigits radix maxDigits value count (ds.map Nat.digitChar ++ rest) =
      readDigits radix maxDigits (ds.foldl (fun v d ↦ v * radix + d) value) (count + ds.length)
        rest := by
  induction ds generalizing value count with
  | nil => rfl
  | cons d ds ih =>
      rw [List.length_cons] at hcount
      have hd := toDigit_digitChar (hds d List.mem_cons_self) hradix
      simp only [List.map_cons, List.cons_append, readDigits, hd]
      rw [if_neg (by omega), ih (fun d h ↦ hds d (List.mem_cons_of_mem _ h)) (by omega),
        List.length_cons, List.foldl_cons, Nat.add_right_comm, Nat.add_assoc]

/-- A printed number as its digits: there is at least one, they have its value,
and only a zero begins with a zero. -/
theorem exists_digits {b : ℕ} (hb : 1 < b) (n : ℕ) :
    ∃ d ds, Nat.toDigits b n = (d :: ds).map Nat.digitChar ∧ (∀ e ∈ d :: ds, e < b) ∧
      (d :: ds).foldl (fun v e ↦ v * b + e) 0 = n ∧ (d = 0 → ds = []) := by
  induction n using Nat.strong_induction_on with
  | _ n ih =>
      rw [Nat.toDigits_eq_if hb]
      split
      · exact ⟨n, [], rfl, by simpa, by simp, fun _ ↦ rfl⟩
      · rename_i hn
        obtain ⟨d, ds, htext, hlt, hvalue, hzero⟩ := ih (n / b)
          (Nat.div_lt_self (by omega) hb)
        refine ⟨d, ds ++ [n % b], ?_, ?_, ?_, ?_⟩
        · rw [htext]
          simp
        · intro e he
          rw [← List.cons_append, List.mem_append, List.mem_singleton] at he
          rcases he with he | rfl
          · exact hlt e he
          · exact Nat.mod_lt n (by omega)
        · rw [← List.cons_append, List.foldl_append, hvalue]
          exact Nat.div_add_mod' n b
        · -- A leading zero would be the whole of the quotient, which is not zero.
          rintro rfl
          rw [hzero rfl] at hvalue
          have hpos : 0 < n / b := Nat.div_pos (by omega) (by omega)
          simp at hvalue
          omega

theorem digitChar_eq_zero_iff {d : ℕ} (h : d < 16) : d.digitChar = '0' ↔ d = 0 := by
  interval_cases d <;> decide

/-- What was printed is read back, if the rest does not go on with a digit. -/
theorem readNumber_toDigits {n limit : ℕ} (hradix : 1 < radix) (hradix' : radix ≤ 16)
    (hn : n < limit) (hmax : 0 < maxDigits) (hlen : n < radix ^ maxDigits)
    (allowZeroPrefix : Bool) {rest : List Char} (hrest : Ends radix rest) :
    readNumber radix maxDigits allowZeroPrefix limit (Nat.toDigits radix n ++ rest) =
      some (n, rest) := by
  have hlength := (Nat.length_toDigits_le_iff hradix hmax).mpr hlen
  obtain ⟨d, ds, htext, hlt, hvalue, hzero⟩ := exists_digits hradix n
  rw [htext] at hlength ⊢
  rw [List.length_map] at hlength
  have hread : readDigits radix maxDigits 0 0 ((d :: ds).map Nat.digitChar ++ rest) =
      some (n, (d :: ds).length, rest) := by
    rw [readDigits_append hlt hradix' (by omega), hvalue, readDigits_of_ends hrest, Nat.zero_add]
  unfold readNumber
  rw [hread]
  simp only [List.length_cons, Nat.succ_ne_zero, if_false, if_pos hn]
  rw [if_neg]
  rintro ⟨-, hhead, hcount⟩
  have hd : d = 0 := by
    refine (digitChar_eq_zero_iff ?_).mp (Option.some.inj hhead)
    exact lt_of_lt_of_le (hlt d List.mem_cons_self) hradix'
  rw [hzero hd] at hcount
  simp at hcount

theorem isDigitOf_of_mem_toDigits {n : ℕ} (hradix : 1 < radix) (hradix' : radix ≤ 16) {c : Char}
    (hc : c ∈ Nat.toDigits radix n) : isDigitOf radix c = true := by
  obtain ⟨d, ds, htext, hlt, -, -⟩ := exists_digits hradix n
  rw [htext] at hc
  obtain ⟨e, he, rfl⟩ := List.mem_map.mp hc
  rw [isDigitOf, toDigit_digitChar (hlt e he) hradix']
  rfl

end Printing

end Numerals
