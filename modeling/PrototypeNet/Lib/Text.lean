import Mathlib

/-!
# Text as UTF-8 programs see it

A text is the list of its characters.  Programs that index it by bytes see
the length of its encoding, and may cut it only between two characters.  The
integer parser is the one of the Rust standard library for unsigned bytes in
base sixteen: a plus sign may stand in front of the digits.
-/

namespace Text

/-! ## Bytes -/

def byteLen (s : List Char) : ℕ :=
  (s.map Char.utf8Size).sum

@[simp] theorem byteLen_nil : byteLen [] = 0 := rfl

@[simp] theorem byteLen_cons (c : Char) (s : List Char) :
    byteLen (c :: s) = c.utf8Size + byteLen s := by
  rw [byteLen, List.map_cons, List.sum_cons, byteLen]

theorem byteLen_append (s t : List Char) : byteLen (s ++ t) = byteLen s + byteLen t := by
  rw [byteLen, List.map_append, List.sum_append, byteLen, byteLen]

/-- Cut a text after `n` bytes, which must not fall into a character. -/
def cut : List Char → ℕ → Option (List Char × List Char)
  | s, 0 => some ([], s)
  | [], _ + 1 => none
  | c :: s, n + 1 =>
      if c.utf8Size ≤ n + 1 then
        (cut s (n + 1 - c.utf8Size)).map fun parts ↦ (c :: parts.1, parts.2)
      else none

/-- The bytes from `start` up to `stop`; `none` where a program panics. -/
def slice (s : List Char) (start stop : ℕ) : Option (List Char) := do
  let parts ← cut s start
  let middle ← cut parts.2 (stop - start)
  return middle.1

theorem cut_zero (s : List Char) : cut s 0 = some ([], s) := by
  cases s <;> rfl

theorem cut_cons {c : Char} {s : List Char} {n : ℕ} (hn : 0 < n) (h : c.utf8Size ≤ n) :
    cut (c :: s) n = (cut s (n - c.utf8Size)).map fun parts ↦ (c :: parts.1, parts.2) := by
  obtain ⟨m, rfl⟩ := Nat.exists_eq_succ_of_ne_zero hn.ne'
  exact if_pos h

theorem cut_cons_of_lt {c : Char} {s : List Char} {n : ℕ} (hn : 0 < n) (h : n < c.utf8Size) :
    cut (c :: s) n = none := by
  obtain ⟨m, rfl⟩ := Nat.exists_eq_succ_of_ne_zero hn.ne'
  exact if_neg (by omega)

theorem cut_byteLen (s t : List Char) : cut (s ++ t) (byteLen s) = some (s, t) := by
  induction s with
  | nil => exact cut_zero t
  | cons c s ih =>
      have hpos := c.utf8Size_pos
      rw [List.cons_append, byteLen_cons, cut_cons (by omega) (by omega), Nat.add_sub_cancel_left,
        ih]
      rfl

theorem slice_append (s t : List Char) (n : ℕ) :
    slice (s ++ t) (byteLen s) (byteLen s + n) = (cut t n).map Prod.fst := by
  rw [slice, cut_byteLen]
  simp only [Option.bind_eq_bind, Option.bind_some, Nat.add_sub_cancel_left]
  cases cut t n <;> rfl

/-! ## White space -/

/-- The characters with the Unicode property `White_Space`. -/
def isWhitespace (c : Char) : Bool :=
  let n := c.toNat
  decide (9 ≤ n ∧ n ≤ 13 ∨ n = 0x20 ∨ n = 0x85 ∨ n = 0xA0 ∨ n = 0x1680 ∨
    0x2000 ≤ n ∧ n ≤ 0x200A ∨ n = 0x2028 ∨ n = 0x2029 ∨ n = 0x202F ∨ n = 0x205F ∨ n = 0x3000)

def trim (s : List Char) : List Char :=
  ((s.dropWhile isWhitespace).reverse.dropWhile isWhitespace).reverse

theorem trim_eq_self {s : List Char} (h : ∀ c ∈ s, isWhitespace c = false) : trim s = s := by
  have hdrop {t : List Char} (ht : ∀ c ∈ t, isWhitespace c = false) :
      t.dropWhile isWhitespace = t := by
    cases t with
    | nil => rfl
    | cons c t => exact List.dropWhile_cons_of_neg (by simp [ht c List.mem_cons_self])
  rw [trim, hdrop h, hdrop fun c hc ↦ h c (List.mem_reverse.mp hc), List.reverse_reverse]

/-! ## Numbers in base sixteen -/

/-- The value of a digit of either case. -/
def hexDigit (c : Char) : Option ℕ :=
  let n := c.toNat
  if 48 ≤ n ∧ n ≤ 57 then some (n - 48)
  else if 97 ≤ n ∧ n ≤ 102 then some (n - 87)
  else if 65 ≤ n ∧ n ≤ 70 then some (n - 55)
  else none

inductive ParseIntError
  | empty
  | invalidDigit
  | posOverflow
  deriving DecidableEq, Repr

def ParseIntError.message : ParseIntError → String
  | .empty => "cannot parse integer from empty string"
  | .invalidDigit => "invalid digit found in string"
  | .posOverflow => "number too large to fit in target type"

def readDigits (value : ℕ) : List Char → Except ParseIntError ℕ
  | [] => .ok value
  | c :: s =>
      match hexDigit c with
      | none => .error .invalidDigit
      | some d =>
          if value * 16 + d < 256 then readDigits (value * 16 + d) s else .error .posOverflow

/-- `u8::from_str_radix` in base sixteen. -/
def fromStrRadix16 (s : List Char) : Except ParseIntError (BitVec 8) :=
  match s with
  | [] => .error .empty
  | c :: digits =>
      if digits = [] ∧ (c = '+' ∨ c = '-') then .error .invalidDigit
      else (readDigits 0 (if c = '+' then digits else c :: digits)).map (BitVec.ofNat 8)

theorem hexDigit_bounds {c : Char} {d : ℕ} (h : hexDigit c = some d) : d < 16 ∧ c.toNat < 128 := by
  simp only [hexDigit] at h
  split at h
  · cases h
    omega
  · split at h
    · cases h
      omega
    · split at h
      · cases h
        omega
      · cases h

theorem utf8Size_of_lt {c : Char} (h : c.toNat < 128) : c.utf8Size = 1 :=
  Char.utf8Size_eq_one_iff.mpr (UInt32.le_iff_toNat_le.mpr (Nat.lt_succ_iff.mp h))

/-- What the parser makes of two characters: two digits, or a sign and a digit. -/
def pairValue (c d : Char) : Option ℕ :=
  (if c = '+' then some 0 else hexDigit c).bind fun high ↦
    (hexDigit d).map fun low ↦ high * 16 + low

theorem pairValue_eq_some {c d : Char} {v : ℕ} (h : pairValue c d = some v) :
    v < 256 ∧ c.utf8Size = 1 ∧ d.utf8Size = 1 := by
  obtain ⟨high, hhigh, hrest⟩ := Option.bind_eq_some_iff.mp h
  obtain ⟨low, hlow, rfl⟩ := Option.map_eq_some_iff.mp hrest
  have hd := hexDigit_bounds hlow
  have hc : high < 16 ∧ c.toNat < 128 := by
    split at hhigh
    · rename_i hplus
      cases hhigh
      rw [hplus]
      decide
    · exact hexDigit_bounds hhigh
  exact ⟨by omega, utf8Size_of_lt hc.2, utf8Size_of_lt hd.2⟩

theorem fromStrRadix16_pair (c d : Char) :
    fromStrRadix16 [c, d] =
      (pairValue c d).elim (.error .invalidDigit) fun v ↦ .ok (BitVec.ofNat 8 v) := by
  have hne : ¬ ([d] = [] ∧ (c = '+' ∨ c = '-')) := by simp
  rw [fromStrRadix16, if_neg hne]
  by_cases hplus : c = '+'
  · cases hd : hexDigit d with
    | none => simp [hplus, readDigits, pairValue, hd, Except.map]
    | some low =>
        have := (hexDigit_bounds hd).1
        simp [hplus, readDigits, pairValue, hd, Except.map, show low < 256 by omega]
  · cases hc : hexDigit c with
    | none => simp [hplus, readDigits, pairValue, hc, Except.map]
    | some high =>
        have hhigh := (hexDigit_bounds hc).1
        cases hd : hexDigit d with
        | none =>
            simp [hplus, readDigits, pairValue, hc, hd, Except.map, show high < 256 by omega]
        | some low =>
            have hlow := (hexDigit_bounds hd).1
            simp [hplus, readDigits, pairValue, hc, hd, Except.map, show high < 256 by omega,
              show high * 16 + low < 256 by omega]

/-- A character that is no single byte is no digit. -/
theorem fromStrRadix16_wide {c : Char} (h : c.utf8Size ≠ 1) :
    fromStrRadix16 [c] = .error .invalidDigit := by
  have hplus : c ≠ '+' := fun hc ↦ h (by rw [hc]; decide)
  have hminus : c ≠ '-' := fun hc ↦ h (by rw [hc]; decide)
  have hnone : hexDigit c = none := by
    cases hd : hexDigit c with
    | none => rfl
    | some d => exact absurd (utf8Size_of_lt (hexDigit_bounds hd).2) h
  simp [fromStrRadix16, hplus, hminus, readDigits, hnone, Except.map]

end Text
