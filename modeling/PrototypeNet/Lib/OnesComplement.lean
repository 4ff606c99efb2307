import PrototypeNet.Lib.ByteWords

/-!
# One's-complement sums

Addition with end-around carry on words of `w` bits is addition modulo
`2 ^ w - 1`, except that zero has two representations: the zero word and the
word of all ones.  A sum of words is the zero word only if every summand is,
so a check sum that comes out as all ones says that the residues add up to
zero and that some word is not zero.

Words are read from byte strings most significant byte first.  Reading them
the other way round multiplies every residue by `256`, which is its own
inverse modulo `65535`: this is why sums may be taken in either byte order.
-/

namespace OnesComplement

open ByteWords

/-! ## Addition with end-around carry -/

section Carry

variable {n w : ℕ}

/-- Add, and add the carry that leaves the word back in at its low end. -/
def carryAdd (a b : BitVec w) : BitVec w :=
  let s := a + b
  if s < b then s + 1 else s

theorem add_lt_right_iff (a b : BitVec w) : a + b < b ↔ 2 ^ w ≤ a.toNat + b.toNat := by
  have ha := a.isLt
  have hb := b.isLt
  rw [BitVec.lt_def, BitVec.toNat_add]
  constructor
  · intro h
    by_contra hsmall
    rw [Nat.mod_eq_of_lt (by omega)] at h
    omega
  · intro h
    rw [Nat.mod_eq_sub_mod h, Nat.mod_eq_of_lt (by omega)]
    omega

theorem toNat_carryAdd (a b : BitVec w) :
    (carryAdd a b).toNat =
      if 2 ^ w ≤ a.toNat + b.toNat then a.toNat + b.toNat + 1 - 2 ^ w else a.toNat + b.toNat := by
  have ha := a.isLt
  have hb := b.isLt
  simp only [carryAdd, add_lt_right_iff]
  by_cases hcarry : 2 ^ w ≤ a.toNat + b.toNat
  · have hsum : (a + b).toNat = a.toNat + b.toNat - 2 ^ w := by
      rw [BitVec.toNat_add, Nat.mod_eq_sub_mod hcarry, Nat.mod_eq_of_lt (by omega)]
    have hpos : 0 < w := by
      rcases Nat.eq_zero_or_pos w with rfl | h
      · simp only [pow_zero] at ha hb hcarry
        omega
      · exact h
    have hone : (1 : BitVec w).toNat = 1 := by
      rw [BitVec.ofNat_eq_ofNat, BitVec.toNat_ofNat]
      exact Nat.mod_eq_of_lt (Nat.one_lt_two_pow hpos.ne')
    rw [if_pos hcarry, if_pos hcarry, BitVec.toNat_add, hsum, hone, Nat.mod_eq_of_lt (by omega)]
    omega
  · rw [if_neg hcarry, if_neg hcarry, BitVec.toNat_add, Nat.mod_eq_of_lt (by omega)]

theorem cast_carryAdd (hw : (2 : ZMod n) ^ w = 1) (a b : BitVec w) :
    ((carryAdd a b).toNat : ZMod n) = a.toNat + b.toNat := by
  rw [toNat_carryAdd]
  by_cases hcarry : 2 ^ w ≤ a.toNat + b.toNat
  · rw [if_pos hcarry, Nat.cast_sub (by omega)]
    push_cast
    rw [hw]
    ring
  · rw [if_neg hcarry, Nat.cast_add]

theorem cast_not (hw : (2 : ZMod n) ^ w = 1) (a : BitVec w) :
    ((~~~ a).toNat : ZMod n) = -a.toNat := by
  have ha := a.isLt
  rw [BitVec.toNat_not, Nat.sub_sub, Nat.cast_sub (by omega)]
  push_cast
  rw [hw]
  ring

theorem carryAdd_eq_zero_iff (a b : BitVec w) : carryAdd a b = 0 ↔ a = 0 ∧ b = 0 := by
  have ha := a.isLt
  have hb := b.isLt
  rw [← BitVec.toNat_inj, ← BitVec.toNat_inj, ← BitVec.toNat_inj, toNat_carryAdd,
    BitVec.ofNat_eq_ofNat, BitVec.toNat_ofNat, Nat.zero_mod]
  split_ifs <;> omega

theorem cast_foldl_carryAdd (hw : (2 : ZMod n) ^ w = 1) (ws : List (BitVec w)) (s : BitVec w) :
    ((ws.foldl carryAdd s).toNat : ZMod n) =
      s.toNat + (ws.map fun x ↦ (x.toNat : ZMod n)).sum := by
  induction ws generalizing s with
  | nil => simp
  | cons x ws ih =>
      rw [List.foldl_cons, ih, cast_carryAdd hw, List.map_cons, List.sum_cons]
      ring

theorem foldl_carryAdd_eq_zero_iff (ws : List (BitVec w)) (s : BitVec w) :
    ws.foldl carryAdd s = 0 ↔ s = 0 ∧ ∀ x ∈ ws, x = 0 := by
  induction ws generalizing s with
  | nil => simp
  | cons x ws ih =>
      rw [List.foldl_cons, ih, carryAdd_eq_zero_iff, List.forall_mem_cons, and_assoc]

/-- The residue forgets only which of the two zeros a word is. -/
theorem cast_eq_zero_iff (hn : n + 1 = 2 ^ w) (a : BitVec w) :
    (a.toNat : ZMod n) = 0 ↔ a = 0 ∨ a = BitVec.allOnes w := by
  have ha := a.isLt
  rw [ZMod.natCast_eq_zero_iff, ← BitVec.toNat_inj, ← BitVec.toNat_inj, BitVec.toNat_allOnes,
    BitVec.ofNat_eq_ofNat, BitVec.toNat_ofNat, Nat.zero_mod]
  constructor
  · rintro ⟨k, hk⟩
    rcases k with _ | _ | k
    · left
      simpa using hk
    · right
      omega
    · have hle : n * 2 ≤ n * (k + 1 + 1) := Nat.mul_le_mul_left n (by omega)
      rcases Nat.eq_zero_or_pos n with rfl | hpos
      · left
        simpa using hk
      · omega
  · rintro (h | h)
    · rw [h]
      exact dvd_zero n
    · exact ⟨1, by omega⟩

def onesSum (ws : List (BitVec w)) : BitVec w :=
  ws.foldl carryAdd 0

theorem two_pow_eq_one (hn : n + 1 = 2 ^ w) : (2 : ZMod n) ^ w = 1 := by
  have hcast : ((2 ^ w : ℕ) : ZMod n) = ((n + 1 : ℕ) : ZMod n) := by rw [hn]
  simpa using hcast

/-- A sum comes out as all ones exactly if it is zero as a residue without
being a sum of zeros. -/
theorem onesSum_eq_allOnes_iff (hn : n + 1 = 2 ^ w) (hw : 0 < w) (ws : List (BitVec w)) :
    onesSum ws = BitVec.allOnes w ↔
      (ws.map fun x ↦ (x.toNat : ZMod n)).sum = 0 ∧ ∃ x ∈ ws, x ≠ 0 := by
  have hsum : ((onesSum ws).toNat : ZMod n) = (ws.map fun x ↦ (x.toNat : ZMod n)).sum := by
    rw [onesSum, cast_foldl_carryAdd (two_pow_eq_one hn)]
    simp
  have hzero : onesSum ws = 0 ↔ ∀ x ∈ ws, x = 0 := by
    rw [onesSum, foldl_carryAdd_eq_zero_iff]
    simp
  have hne : BitVec.allOnes w ≠ 0 := by
    rw [Ne, ← BitVec.toNat_inj, BitVec.toNat_allOnes, BitVec.ofNat_eq_ofNat, BitVec.toNat_ofNat,
      Nat.zero_mod]
    have := Nat.one_lt_two_pow hw.ne'
    omega
  rw [← hsum, cast_eq_zero_iff hn, hzero]
  constructor
  · intro h
    refine ⟨.inr h, ?_⟩
    by_contra hall
    push Not at hall
    exact hne (h.symm.trans (hzero.mpr hall))
  · rintro ⟨hall | h, x, hx, hx0⟩
    · exact absurd (hall x hx) hx0
    · exact h

/-- Adding the upper part of a number to its lower part keeps the residue. -/
theorem cast_mod_add_div {k : ℕ} (hk : (2 : ZMod n) ^ k = 1) (x : ℕ) :
    ((x % 2 ^ k + x / 2 ^ k : ℕ) : ZMod n) = x := by
  have hx : ((x % 2 ^ k + 2 ^ k * (x / 2 ^ k) : ℕ) : ZMod n) = x := by rw [Nat.mod_add_div]
  push_cast at hx ⊢
  rw [hk] at hx
  linear_combination hx

end Carry

/-! ## Byte strings as sums of 16-bit words -/

abbrev Residue := ZMod 65535

/-- The 16-bit words of a byte string; an odd last byte is padded with zero. -/
def words16 : List Byte → List (BitVec 16)
  | [] => []
  | [b] => [BitVec.ofNat 16 (wordValue [b, 0])]
  | b :: c :: l => BitVec.ofNat 16 (wordValue [b, c]) :: words16 l

/-- The residue of the sum of the words of a byte string, one byte at a time. -/
def byteSum : List Byte → Residue
  | [] => 0
  | b :: l => 256 * (b.toNat + byteSum l)

@[simp] theorem byteSum_nil : byteSum [] = 0 := rfl

theorem byteSum_cons (b : Byte) (l : List Byte) :
    byteSum (b :: l) = 256 * (b.toNat + byteSum l) := rfl

theorem sq_256 : (256 : Residue) * 256 = 1 := by decide

theorem toNat_word16 (b c : Byte) :
    (BitVec.ofNat 16 (wordValue [b, c])).toNat = 256 * b.toNat + c.toNat := by
  have hb := b.isLt
  have hc := c.isLt
  rw [BitVec.toNat_ofNat]
  simp only [wordValue, List.foldl_cons, List.foldl_nil]
  omega

theorem sum_words16 (l : List Byte) :
    ((words16 l).map fun x ↦ (x.toNat : Residue)).sum = byteSum l := by
  induction l using words16.induct with
  | case1 => rfl
  | case2 b =>
      rw [words16, List.map_singleton, List.sum_singleton, toNat_word16, byteSum_cons, byteSum_nil]
      push_cast
      simp
  | case3 b c l ih =>
      rw [words16, List.map_cons, List.sum_cons, ih, toNat_word16, byteSum_cons, byteSum_cons]
      push_cast
      linear_combination -(c.toNat + byteSum l) * sq_256

theorem byteSum_append (l m : List Byte) :
    byteSum (l ++ m) = byteSum l + 256 ^ l.length * byteSum m := by
  induction l with
  | nil => simp
  | cons b l ih =>
      rw [List.cons_append, byteSum_cons, byteSum_cons, ih, List.length_cons, pow_succ]
      ring

theorem byteSum_append_of_even {l : List Byte} (h : l.length % 2 = 0) (m : List Byte) :
    byteSum (l ++ m) = byteSum l + byteSum m := by
  obtain ⟨k, hk⟩ := Nat.dvd_of_mod_eq_zero h
  have hpow : (256 : Residue) ^ l.length = 1 := by
    rw [hk, pow_mul, pow_two, sq_256, one_pow]
  rw [byteSum_append, hpow, one_mul]

theorem exists_word_ne_zero {l : List Byte} {b : Byte} (hb : b ∈ l) (h : b ≠ 0) :
    ∃ x ∈ words16 l, x ≠ 0 := by
  have hpos : b.toNat ≠ 0 := fun hz ↦ h (BitVec.eq_of_toNat_eq hz)
  have hword : ∀ c d : Byte, b = c ∨ b = d → BitVec.ofNat 16 (wordValue [c, d]) ≠ 0 := by
    intro c d hcd hz
    have hval := toNat_word16 c d
    rw [hz] at hval
    simp only [BitVec.ofNat_eq_ofNat, BitVec.toNat_ofNat, Nat.zero_mod] at hval
    rcases hcd with rfl | rfl <;> omega
  induction l using words16.induct with
  | case1 => cases hb
  | case2 c =>
      refine ⟨_, List.mem_singleton_self _, hword c 0 (.inl ?_)⟩
      simpa using hb
  | case3 c d l ih =>
      rw [words16]
      rcases List.mem_cons.mp hb with rfl | hb
      · exact ⟨_, List.mem_cons_self, hword _ _ (.inl rfl)⟩
      · rcases List.mem_cons.mp hb with rfl | hb
        · exact ⟨_, List.mem_cons_self, hword _ _ (.inr rfl)⟩
        · obtain ⟨x, hx, hx0⟩ := ih hb
          exact ⟨x, List.mem_cons_of_mem _ hx, hx0⟩

/-- The check a receiver makes comes out right exactly if the residues of the
covered bytes add up to zero. -/
theorem onesSum_words16_eq_iff {l : List Byte} {b : Byte} (hb : b ∈ l) (h : b ≠ 0) :
    onesSum (words16 l) = 0xffff ↔ byteSum l = 0 := by
  have hiff := onesSum_eq_allOnes_iff (n := 65535) (by norm_num) (by norm_num) (words16 l)
  rw [sum_words16] at hiff
  exact hiff.trans (and_iff_left (exists_word_ne_zero hb h))

/-- Read least significant byte first, a byte string has the same residue up
to the factor that swaps the bytes of a word. -/
theorem byteSum_eq_reverse (l : List Byte) :
    byteSum l = 256 * (wordValue l.reverse : Residue) := by
  induction l with
  | nil => simp
  | cons b l ih =>
      rw [byteSum_cons, ih, List.reverse_cons, wordValue_concat]
      push_cast
      ring

end OnesComplement
