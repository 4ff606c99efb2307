import PrototypeNet.Common.Stirring
import PrototypeNet.Lib.Progression

/-!
# The hash behind the tag

A tag is the digest of a stirred word.  On a set of words with enough room, the
hash has no period: the top four bits of a word run through an arithmetic
progression in the middle of the stirred word, which keeps a period out of its
low bits, and a period in the topmost bits would complement what it cannot.
-/

namespace PrototypeNet

open WordMixing

/-! ## The digest -/

/-- The last step of `mix64` and the folding of the tag. -/
def digest (z : BitVec 64) : BitVec 32 :=
  let t := shiftXor 31 z
  t.setWidth 32 ^^^ (t >>> 32).setWidth 32

theorem digest_xor (z z' : BitVec 64) : digest (z ^^^ z') = digest z ^^^ digest z' := by
  simp only [digest, shiftXor_xor, BitVec.setWidth_xor, BitVec.ushiftRight_xor_distrib]
  ac_rfl

theorem getLsbD_digest (z : BitVec 64) {i : ℕ} (hi : i < 32) :
    (digest z).getLsbD i =
      ((z.getLsbD i ^^ z.getLsbD (31 + i)) ^^ (z.getLsbD (32 + i) ^^ z.getLsbD (63 + i))) := by
  have h₁ : 31 + (32 + i) = 63 + i := by omega
  simp only [digest, shiftXor, BitVec.getLsbD_xor, BitVec.getLsbD_setWidth,
    BitVec.getLsbD_ushiftRight, hi, decide_true, Bool.true_and, h₁]

/-- A bit of a word without digest, in terms of two neighbours in its upper
half. -/
theorem getLsbD_of_digest {q : BitVec 64} (h : digest q = 0#32) {i : ℕ} (hpos : 0 < i)
    (hi : i < 32) : q.getLsbD i = (q.getLsbD (31 + i) ^^ q.getLsbD (32 + i)) := by
  have hbit := getLsbD_digest q hi
  rw [h, BitVec.getLsbD_zero, BitVec.getLsbD_of_ge q (63 + i) (by omega)] at hbit
  revert hbit
  cases q.getLsbD i <;> cases q.getLsbD (31 + i) <;> cases q.getLsbD (32 + i) <;> simp

/-- Words above bit 33 have different digests. -/
theorem eq_zero_of_digest_of_low {q : BitVec 64} (h : digest q = 0#32)
    (hlow : ∀ i, i < 33 → q.getLsbD i = false) : q = 0#64 := by
  have hall : ∀ i, i < 32 → q.getLsbD (32 + i) = false := by
    intro i
    induction i with
    | zero => exact fun _ ↦ hlow 32 (by norm_num)
    | succ i ih =>
        intro hi
        have hbit := getLsbD_of_digest h (Nat.succ_pos i) hi
        rw [hlow (i + 1) (by omega), show 31 + (i + 1) = 32 + i by omega, ih (by omega),
          Bool.false_xor] at hbit
        exact hbit.symm
  apply BitVec.eq_of_getLsbD_eq
  intro i hi
  rw [BitVec.getLsbD_zero]
  by_cases hsmall : i < 33
  · exact hlow i hsmall
  · have hbit := hall (i - 32) (by omega)
    rwa [show 32 + (i - 32) = i by omega] at hbit
/-! ## Inputs with room -/

/-- The set has words with all values of the low thirty bits, and with a word
also those with other top four bits and with another last bit. -/
structure Roomy (X : Set (BitVec 64)) : Prop where
  top : ∀ x ∈ X, ∀ v < 16, withTop x v ∈ X
  last : ∀ x ∈ X, x ^^^ 1#64 ∈ X
  low : ∀ l, ∃ x ∈ X, Agree 30 x l

/-- The digest does not see the flip of the bits of `ε` in the words of the set. -/
def PeriodOn (X : Set (BitVec 64)) (ε : BitVec 64) : Prop :=
  ∀ x ∈ X, digest (stir (x ^^^ ε)) = digest (stir x)

/-- The second factor of the mixer takes sixteen numbers in a row to a
progression that only equal bits carry to another. -/
theorem factor_rigid : Progression.rigid 0x94d049bb133111eb 3 := by
  decide +kernel

theorem factor_spread : ∀ i < 26, 4 ≤ i → Progression.Spread 0x94d049bb133111eb i := by
  decide +kernel

theorem carries_testBit_eq {z z' mask i : ℕ}
    (h : Progression.Carries 0x94d049bb133111eb 27 z z' mask) (hi : i + 1 < 27) :
    mask.testBit i = mask.testBit 0 :=
  h.testBit_eq (by decide) factor_rigid (by norm_num)
    (fun k hk hk' ↦ factor_spread k (by omega) hk) hi

section Room

variable {X : Set (BitVec 64)} {ε x : BitVec 64} {v : ℕ}

theorem digest_stir_xor (h : PeriodOn X ε) (hx : x ∈ X) :
    digest (stir x ^^^ stir (x ^^^ ε)) = 0#32 := by
  rw [digest_xor, h x hx, BitVec.xor_self]

/-- Other top four bits change a stirred word from bit 33 on. -/
theorem agree_stir_withTop (x : BitVec 64) (hv : v < 16) :
    Agree 33 (stir (withTop x v)) (stir x) :=
  agree_stir (by norm_num) (agree_withTop x hv)

variable (hroom : Roomy X) (h : PeriodOn X ε)

include hroom h

/-- What the period does to a stirred word does not depend on the top four bits. -/
theorem stir_xor_withTop (hx : x ∈ X) (hv : v < 16) :
    stir (withTop x v ^^^ ε) = stir (withTop x v) ^^^ (stir x ^^^ stir (x ^^^ ε)) := by
  have hzero : stir (withTop x v) ^^^ stir (withTop x v ^^^ ε) ^^^
      (stir x ^^^ stir (x ^^^ ε)) = 0#64 := by
    apply eq_zero_of_digest_of_low
    · rw [digest_xor, digest_stir_xor h (hroom.top x hx v hv), digest_stir_xor h hx,
        BitVec.xor_self]
    · intro i hi
      simp only [BitVec.getLsbD_xor, withTop_xor x ε hv, agree_stir_withTop x hv i hi,
        agree_stir_withTop (x ^^^ ε) (top_xor_lt hv ε) i hi, Bool.xor_self]
  rw [← BitVec.xor_eq_zero_iff.mp hzero, ← BitVec.xor_assoc, BitVec.xor_self, BitVec.zero_xor]

/-- So it carries one progression to another. -/
theorem stir_xor_carries (hx : x ∈ X) : ∃ z z', Progression.Carries 0x94d049bb133111eb 27 z z'
    ((stir x ^^^ stir (x ^^^ ε)).toNat / 2 ^ 33 % 2 ^ 27) := by
  obtain ⟨z, hz⟩ := stir_of_agree (k := 33) (by norm_num) (by norm_num) x
  obtain ⟨z', hz'⟩ := stir_of_agree (k := 33) (by norm_num) (by norm_num) (x ^^^ ε)
  refine ⟨z, z', fun k hk ↦ ?_⟩
  obtain ⟨v, hv, rfl⟩ := exists_crossing x hk
  have hother : Agree 60 (withTop x v ^^^ ε) (x ^^^ ε) := by
    rw [withTop_xor x ε hv]
    exact agree_withTop _ (top_xor_lt hv ε)
  refine ⟨crossing 33 (withTop x v ^^^ ε), crossing_lt 33 _, ?_⟩
  rw [← hz _ (agree_withTop x hv), ← hz' _ hother, stir_xor_withTop hroom h hx hv,
    ← Nat.xor_mod_two_pow, ← Nat.xor_div_two_pow, ← BitVec.toNat_xor]

/-- The low bits of the stirred words do not show the period. -/
theorem getLsbD_stir_low (hx : x ∈ X) {i : ℕ} (hi : 2 ≤ i) (hi' : i ≤ 26) :
    (stir x).getLsbD i = (stir (x ^^^ ε)).getLsbD i := by
  obtain ⟨z, z', hcarries⟩ := stir_xor_carries hroom h hx
  have hequal (j : ℕ) (hj : j + 1 < 27) :
      (stir x ^^^ stir (x ^^^ ε)).getLsbD (33 + j) =
        (stir x ^^^ stir (x ^^^ ε)).getLsbD 33 := by
    have hbit := carries_testBit_eq hcarries hj
    rw [Nat.testBit_mod_two_pow, Nat.testBit_mod_two_pow, decide_eq_true (by omega),
      decide_eq_true (by norm_num), Bool.true_and, Bool.true_and, Nat.testBit_div_two_pow,
      Nat.testBit_div_two_pow, Nat.add_comm j, Nat.zero_add] at hbit
    exact hbit
  have hneighbour := getLsbD_of_digest (digest_stir_xor h hx) (show 0 < i by omega)
    (show i < 32 by omega)
  rw [show 31 + i = 33 + (i - 2) by omega, show 32 + i = 33 + (i - 1) by omega,
    hequal _ (by omega), hequal _ (by omega), Bool.xor_self, BitVec.getLsbD_xor,
    bne_eq_false_iff_eq] at hneighbour
  exact hneighbour

theorem low_eq_zero : ε.toNat % 2 ^ 30 = 0 := by
  apply low_eq_zero_of_period
  intro y
  obtain ⟨x, hx, hagree⟩ := hroom.low y
  have hbit := getLsbD_stir_low hroom h hx (le_refl 2) (by norm_num)
  exact (stir_two_congr (hagree.xor ε)).symm.trans (hbit.symm.trans (stir_two_congr hagree))

/-- A period begins among the topmost ten bits. -/
theorem le_of_part {j : ℕ} (hj : Part j 0#64 ε) : 54 ≤ j := by
  by_contra hlt
  have hlow : 30 ≤ j := by
    by_contra hlt
    have hagree : Agree 30 ε 0#64 := agree_iff_mod.mpr (low_eq_zero hroom h)
    exact hj.2 (hagree j (by omega)).symm
  obtain ⟨x, hx, -⟩ := hroom.low 0#64
  obtain ⟨i, rfl⟩ := Nat.exists_eq_add_of_le' (show 27 ≤ j by omega)
  exact (part_stir (by omega) (hj.xor x)).2
    (getLsbD_stir_low hroom h hx (by omega) (by omega))

end Room

/-! ## A period in the topmost bits -/

/-- From bit 32 on, words with the same digest that agree up to bit 27 are equal
or complements of each other. -/
theorem upper_of_digest {z z' : BitVec 64} (hagree : Agree 27 z z')
    (h : digest (z ^^^ z') = 0#32) :
    z.toNat / 2 ^ 32 % 2 ^ 22 = z'.toNat / 2 ^ 32 % 2 ^ 22 ∨
      z.toNat / 2 ^ 32 % 2 ^ 22 + z'.toNat / 2 ^ 32 % 2 ^ 22 = 2 ^ 22 - 1 := by
  have hbits : ∀ i, i ≤ 26 → (z ^^^ z').getLsbD (32 + i) = (z ^^^ z').getLsbD 32 := by
    intro i
    induction i with
    | zero => exact fun _ ↦ rfl
    | succ i ih =>
        intro hi
        have hbit := getLsbD_of_digest h (Nat.succ_pos i) (by omega)
        rw [BitVec.getLsbD_xor, hagree (i + 1) (by omega), Bool.xor_self,
          show 31 + (i + 1) = 32 + i by omega, ih (by omega)] at hbit
        revert hbit
        cases (z ^^^ z').getLsbD 32 <;> cases (z ^^^ z').getLsbD (32 + (i + 1)) <;> simp
  have hxor : z.toNat / 2 ^ 32 % 2 ^ 22 ^^^ z'.toNat / 2 ^ 32 % 2 ^ 22 =
      (z ^^^ z').toNat / 2 ^ 32 % 2 ^ 22 := by
    rw [BitVec.toNat_xor, Nat.xor_div_two_pow, Nat.xor_mod_two_pow]
  have hrow (i : ℕ) : ((z ^^^ z').toNat / 2 ^ 32 % 2 ^ 22).testBit i =
      (decide (i < 22) && (z ^^^ z').getLsbD 32) := by
    rw [Nat.testBit_mod_two_pow, Nat.testBit_div_two_pow, Nat.add_comm i]
    by_cases hi : i < 22
    · rw [← hbits i (by omega), BitVec.getLsbD]
    · simp [hi]
  have hlt : z.toNat / 2 ^ 32 % 2 ^ 22 < 2 ^ 22 := Nat.mod_lt _ (by norm_num)
  cases hsign : (z ^^^ z').getLsbD 32 with
  | false =>
      left
      have hzero : (z ^^^ z').toNat / 2 ^ 32 % 2 ^ 22 = 0 := by
        apply Nat.eq_of_testBit_eq
        intro i
        rw [hrow, hsign, Bool.and_false, Nat.zero_testBit]
      exact Nat.xor_eq_zero_iff.mp (hxor.trans hzero)
  | true =>
      right
      have hones : (z ^^^ z').toNat / 2 ^ 32 % 2 ^ 22 = 2 ^ 22 - 1 := by
        apply Nat.eq_of_testBit_eq
        intro i
        rw [hrow, hsign, Bool.and_true, Nat.testBit_two_pow_sub_one]
      have hother : z'.toNat / 2 ^ 32 % 2 ^ 22 =
          z.toNat / 2 ^ 32 % 2 ^ 22 ^^^ (2 ^ 22 - 1) := by
        rw [← hones, ← hxor, ← Nat.xor_assoc, Nat.xor_self, Nat.zero_xor]
      rw [hother, Progression.xor_ones hlt]
      omega

/-- The inverse of the second factor takes small numbers to large ones. -/
theorem inverse_far : ∀ d < 63, 0 < d →
    2047 ≤ 0x24d8ec3 * d % 2 ^ 27 ∧ 0x24d8ec3 * d % 2 ^ 27 + 2047 ≤ 2 ^ 27 := by
  decide +kernel

theorem eq_of_products_close {m n : ℕ} (hm : m < 2047) (hn : n < 2047) (s t : ℕ) (hs : s < 63)
    (ht : t < 63)
    (h : 0x94d049bb133111eb * m + s ≡ 0x94d049bb133111eb * n + t [MOD 2 ^ 27]) : m = n :=
  Progression.eq_of_close inverse_far (by decide) (by norm_num) hm hn hs ht h

/-- Two complements add up to all ones, but for their last five bits. -/
theorem modEq_of_complement {z m m' y y' : ℕ}
    (hy : y / 2 ^ 27 % 2 ^ 27 = (z + 0x94d049bb133111eb * m) % 2 ^ 27)
    (hy' : y' / 2 ^ 27 % 2 ^ 27 = (z + 0x94d049bb133111eb * m') % 2 ^ 27)
    (hones : y / 2 ^ 32 % 2 ^ 22 + y' / 2 ^ 32 % 2 ^ 22 = 2 ^ 22 - 1) :
    2 * z + 0x94d049bb133111eb * (m + m') ≡
      32 * (2 ^ 22 - 1) + (y / 2 ^ 27 % 32 + y' / 2 ^ 27 % 32) [MOD 2 ^ 27] := by
  have hsplit : y / 2 ^ 27 % 2 ^ 27 + y' / 2 ^ 27 % 2 ^ 27 =
      32 * (2 ^ 22 - 1) + (y / 2 ^ 27 % 32 + y' / 2 ^ 27 % 32) := by
    clear hy hy'
    omega
  have hsum := (Nat.mod_modEq (z + 0x94d049bb133111eb * m) (2 ^ 27)).add
    (Nat.mod_modEq (z + 0x94d049bb133111eb * m') (2 ^ 27))
  rw [← hy, ← hy', hsplit] at hsum
  convert hsum.symm using 1
  ring

/-- The crossing of the topmost ten bits, split at the top four. -/
theorem crossing_split (x : BitVec 64) : crossing 27 x =
    2 ^ 6 * crossing 33 x + (shiftXor 27 (firstProduct x)).toNat % 2 ^ 33 / 2 ^ 27 := by
  simp only [crossing]
  omega

section Topmost

variable {X : Set (BitVec 64)} {ε x : BitVec 64} {j v : ℕ}
  (hpart : Part j 0#64 ε) (hj : 54 ≤ j)

include hpart hj

theorem agree_xor (x : BitVec 64) : Agree 54 (x ^^^ ε) x := by
  intro i hi
  exact ((hpart.xor x).1 i (by omega)).symm

theorem crossing_ne (hlt : j < 64) (x : BitVec 64) : crossing 27 x ≠ crossing 27 (x ^^^ ε) := by
  obtain ⟨i, rfl⟩ := Nat.exists_eq_add_of_le' hj
  have hdiff := part_shifted (j := i + 27) (by omega) (hpart.xor x)
  have hbit (y : BitVec 64) :
      (shiftXor 27 (firstProduct y)).getLsbD (i + 27) = (crossing 27 y).testBit i := by
    rw [crossing, Nat.testBit_mod_two_pow, Nat.testBit_div_two_pow, decide_eq_true (by omega),
      Bool.true_and, BitVec.getLsbD]
  intro heq
  apply hdiff.2
  rw [hbit, hbit, heq]

variable (hlt : j < 64) (h : PeriodOn X ε)

include hlt h

/-- The period complements the upper bits of a stirred word. -/
theorem stir_upper_sum (hx : x ∈ X) :
    (stir x).toNat / 2 ^ 32 % 2 ^ 22 + (stir (x ^^^ ε)).toNat / 2 ^ 32 % 2 ^ 22 = 2 ^ 22 - 1 := by
  have hagree : Agree 27 (stir x) (stir (x ^^^ ε)) :=
    agree_stir (by norm_num) (agree_xor hpart hj x).symm
  rcases upper_of_digest hagree (digest_stir_xor h hx) with heq | hsum
  · exfalso
    obtain ⟨z, hz⟩ := stir_of_agree (k := 27) (by norm_num) (by norm_num) x
    have hown := hz x fun _ _ ↦ rfl
    have hother := hz _ (agree_xor hpart hj x)
    apply crossing_ne hpart hj hlt x
    apply eq_of_products_close ((crossing_lt 27 _).trans (by norm_num))
      ((crossing_lt 27 _).trans (by norm_num)) ((stir (x ^^^ ε)).toNat / 2 ^ 27 % 32)
      ((stir x).toNat / 2 ^ 27 % 32) (by omega) (by omega)
    rw [Nat.ModEq]
    omega
  · exact hsum

variable (hroom : Roomy X)

include hroom

/-- So the crossings of a word and its partner add up to the same number for all
top four bits. -/
theorem crossing_sum (hx : x ∈ X) (hv : v < 16) :
    crossing 27 (withTop x v) + crossing 27 (withTop x v ^^^ ε) =
      crossing 27 x + crossing 27 (x ^^^ ε) := by
  obtain ⟨z, hz⟩ := stir_of_agree (k := 27) (by norm_num) (by norm_num) x
  have htop : Agree 54 (withTop x v) x := (agree_withTop x hv).mono (by norm_num)
  have hplain := modEq_of_complement (hz x fun _ _ ↦ rfl) (hz _ (agree_xor hpart hj x))
    (stir_upper_sum hpart hj hlt h hx)
  have hturned := modEq_of_complement (hz _ htop)
    (hz _ ((agree_xor hpart hj (withTop x v)).trans htop))
    (stir_upper_sum hpart hj hlt h (hroom.top x hx v hv))
  have hbound (y y' : BitVec 64) : crossing 27 y + crossing 27 y' < 2047 := by
    have hy := crossing_lt 27 y
    have hy' := crossing_lt 27 y'
    omega
  apply eq_of_products_close (hbound _ _) (hbound _ _)
    ((stir x).toNat / 2 ^ 27 % 32 + (stir (x ^^^ ε)).toNat / 2 ^ 27 % 32)
    ((stir (withTop x v)).toNat / 2 ^ 27 % 32 + (stir (withTop x v ^^^ ε)).toNat / 2 ^ 27 % 32)
    (by omega) (by omega)
  apply Nat.ModEq.add_left_cancel' (2 * z + 32 * (2 ^ 22 - 1))
  have hcross := hturned.add hplain.symm
  convert hcross using 1 <;> ring

/-- Hence the period complements the four bits that the top four bits meet. -/
theorem crossing_top_sum (hx : x ∈ X) : crossing 33 x + crossing 33 (x ^^^ ε) = 15 := by
  have hconst (v : ℕ) (hv : v < 16) :
      crossing 33 (withTop x v) + crossing 33 (withTop x v ^^^ ε) =
        crossing 33 x + crossing 33 (x ^^^ ε) := by
    have hsum := crossing_sum hpart hj hlt h hroom hx hv
    have hown := agree_iff_mod.mp (agree_shifted (k := 33) (by norm_num) (agree_withTop x hv))
    have hother := agree_iff_mod.mp (agree_shifted (k := 33) (by norm_num)
      (agree_withTop (x ^^^ ε) (top_xor_lt hv ε)))
    rw [← withTop_xor x ε hv] at hother
    rw [crossing_split, crossing_split, crossing_split x, crossing_split (x ^^^ ε), hown,
      hother] at hsum
    omega
  -- The value is reached as a sum with 0 and as a sum with 15.
  obtain ⟨v, hv, hleast⟩ := exists_crossing x (show 0 < 16 by norm_num)
  obtain ⟨v', hv', hmost⟩ := exists_crossing x (show 15 < 16 by norm_num)
  have hsum_least := hconst v hv
  have hsum_most := hconst v' hv'
  have hbound : crossing 33 (withTop x v ^^^ ε) < 16 := crossing_lt 33 _
  omega

/-- And it complements the top four bits of the first product. -/
theorem firstProduct_top_sum (hx : x ∈ X) :
    (firstProduct x).toNat / 2 ^ 60 + (firstProduct (x ^^^ ε)).toNat / 2 ^ 60 = 15 := by
  have hsum := crossing_top_sum hpart hj hlt h hroom hx
  have hmid : (firstProduct (x ^^^ ε)).toNat / 2 ^ 33 % 16 =
      (firstProduct x).toNat / 2 ^ 33 % 16 := by
    have hagree := agree_iff_mod.mp (agree_firstProduct (by norm_num) (agree_xor hpart hj x))
    omega
  have hall : ∀ m < 16, ∀ p < 16, ∀ q < 16, (m ^^^ p) + (m ^^^ q) = 15 → p + q = 15 := by
    decide +kernel
  rw [crossing_thirty_three, crossing_thirty_three, hmid] at hsum
  exact hall _ (Nat.mod_lt _ (by norm_num)) _ (by omega) _ (by omega) hsum

/-- But flipping the last bit of the word does not keep the sum. -/
theorem no_topmost_period : False := by
  obtain ⟨x, hx, hagree⟩ := hroom.low 0#64
  have heven : x.toNat % 2 = 0 := by
    have hmod := agree_iff_mod.mp (hagree.mono (show 1 ≤ 30 by norm_num))
    simpa using hmod
  have hother : (x ^^^ ε).toNat % 2 = 0 := by
    have hmod := agree_iff_mod.mp ((agree_xor hpart hj x).mono (show 1 ≤ 54 by norm_num))
    rw [pow_one] at hmod
    omega
  have hstep (y : BitVec 64) (hy : y.toNat % 2 = 0) :
      (firstProduct (y ^^^ 1#64)).toNat =
        ((firstProduct y).toNat + 0xbf58476d1ce4e5b9) % 2 ^ 64 := by
    have hbit : y.getLsbD 0 = false := by
      rw [BitVec.getLsbD, Nat.testBit_zero, hy]
      rfl
    have hflip : y ^^^ 1#64 = y + 1#64 := (add_twoPow_of_getLsbD_false hbit).symm
    rw [hflip, firstProduct, BitVec.add_mul, BitVec.one_mul, BitVec.toNat_add]
    rfl
  have hsum := firstProduct_top_sum hpart hj hlt h hroom hx
  have hflipped := firstProduct_top_sum hpart hj hlt h hroom (hroom.last x hx)
  rw [show x ^^^ 1#64 ^^^ ε = x ^^^ ε ^^^ 1#64 by ac_rfl, hstep x heven, hstep _ hother]
    at hflipped
  have hlt₁ := (firstProduct x).isLt
  have hlt₂ := (firstProduct (x ^^^ ε)).isLt
  omega

end Topmost

theorem Roomy.eq_zero_of_periodOn {X : Set (BitVec 64)} {ε : BitVec 64} (hroom : Roomy X)
    (h : PeriodOn X ε) : ε = 0#64 := by
  by_contra hne
  obtain ⟨j, hlt, hpart⟩ := exists_part (Ne.symm hne)
  exact no_topmost_period hpart (le_of_part hroom h hpart) hlt h hroom

/-! ## The hash -/

def tagHash (y : BitVec 64) : BitVec 32 :=
  digest (stir (shiftXor 30 y))

/-- The words that the first shift makes of `y` and flips outside of the mask. -/
def flippedOff (m y : BitVec 64) : Set (BitVec 64) :=
  {x | ∃ f, f &&& m = 0#64 ∧ shiftXor 30 (y ^^^ f) = x}

section Flips

variable {m y x d : BitVec 64}

theorem flippedOff_xor (hd : d &&& m = 0#64) (hx : x ∈ flippedOff m y) :
    x ^^^ shiftXor 30 d ∈ flippedOff m y := by
  obtain ⟨f, hf, rfl⟩ := hx
  refine ⟨f ^^^ d, xor_and_eq_zero hf hd, ?_⟩
  rw [← BitVec.xor_assoc, shiftXor_xor]

/-- Three flips that the first shift turns into one among the top four bits. -/
theorem shiftXor_tripled : ∀ n < 16,
    shiftXor 30 (BitVec.ofNat 64 (0x1000000040000001 * n)) = BitVec.ofNat 64 (2 ^ 60 * n) := by
  decide

theorem withTop_eq_xor (x : BitVec 64) {v : ℕ} (hv : v < 16) :
    withTop x v = x ^^^ BitVec.ofNat 64 (2 ^ 60 * (v ^^^ x.toNat / 2 ^ 60)) := by
  have hlt := top_xor_lt hv x
  apply BitVec.eq_of_toNat_eq
  rw [toNat_withTop x hv, BitVec.toNat_xor, BitVec.toNat_ofNat,
    Nat.mod_eq_of_lt (show 2 ^ 60 * (v ^^^ x.toNat / 2 ^ 60) < 2 ^ 64 by omega),
    ← Nat.div_add_mod (x.toNat ^^^ _) (2 ^ 60), Nat.xor_div_two_pow, Nat.xor_mod_two_pow,
    Nat.mul_div_cancel_left _ (by norm_num), Nat.mul_mod_right, Nat.xor_zero, Nat.xor_comm v,
    ← Nat.xor_assoc, Nat.xor_self, Nat.zero_xor]

/-- A low bit is flipped by itself or, under the mask, by the bit thirty places
above it. -/
theorem exists_agree_shiftXor (hm : m <<< 30 &&& m = 0#64) (l : BitVec 64) :
    ∃ f, f &&& m = 0#64 ∧ Agree 30 (shiftXor 30 f) l := by
  refine ⟨(l &&& 0x3fffffff#64 &&& ~~~ m) ||| (l &&& 0x3fffffff#64 &&& m) <<< 30, ?_, ?_⟩
  · rw [and_eq_zero_iff_getLsbD] at hm ⊢
    intro i hi
    have hbit := hm i hi
    simp only [BitVec.getLsbD_and, BitVec.getLsbD_or, BitVec.getLsbD_not,
      BitVec.getLsbD_shiftLeft, hi, decide_true, Bool.true_and] at hbit ⊢
    revert hbit
    generalize m.getLsbD i = a, m.getLsbD (i - 30) = b, l.getLsbD i = c, l.getLsbD (i - 30) = d,
      decide (i < 30) = e, (0x3fffffff#64).getLsbD i = g, (0x3fffffff#64).getLsbD (i - 30) = j
    revert a b c d e g j
    decide
  · intro i hi
    have hlow : (0x3fffffff#64).getLsbD i = true := by
      revert i
      decide
    have hhigh : (0x3fffffff#64).getLsbD (30 + i) = false := by
      revert i
      decide
    simp only [shiftXor, BitVec.getLsbD_xor, BitVec.getLsbD_ushiftRight, BitVec.getLsbD_and,
      BitVec.getLsbD_or, BitVec.getLsbD_not, BitVec.getLsbD_shiftLeft, hlow, hhigh,
      decide_eq_true hi, decide_eq_true (show i < 64 by omega),
      decide_eq_true (show 30 + i < 64 by omega), decide_eq_false (show ¬ 30 + i < 30 by omega),
      show 30 + i - 30 = i by omega]
    cases l.getLsbD i <;> cases m.getLsbD i <;> simp

variable (htop : 0xf0000003c000000f#64 &&& m = 0#64) (hshift : m <<< 30 &&& m = 0#64)

include htop in
/-- The mask is off all flips made of the twelve bits that it leaves free. -/
theorem and_mask_eq_zero (hd : d &&& 0xf0000003c000000f#64 = d) : d &&& m = 0#64 := by
  rw [← hd, BitVec.and_assoc, htop, BitVec.and_zero]

include htop hshift

theorem roomy_flippedOff (y : BitVec 64) : Roomy (flippedOff m y) where
  top x hx v hv := by
    have hlt := top_xor_lt hv x
    have hfree : ∀ n < 16, BitVec.ofNat 64 (0x1000000040000001 * n) &&& 0xf0000003c000000f#64 =
        BitVec.ofNat 64 (0x1000000040000001 * n) := by decide
    rw [withTop_eq_xor x hv, ← shiftXor_tripled _ hlt]
    exact flippedOff_xor (and_mask_eq_zero htop (hfree _ hlt)) hx
  last x hx := by
    rw [show 1#64 = shiftXor 30 1#64 by decide]
    exact flippedOff_xor (and_mask_eq_zero htop (by decide)) hx
  low l := by
    obtain ⟨f, hf, hagree⟩ := exists_agree_shiftXor hshift (l ^^^ shiftXor 30 y)
    refine ⟨shiftXor 30 (y ^^^ f), ⟨f, hf, rfl⟩, ?_⟩
    have hback := hagree.xor (shiftXor 30 y)
    rwa [BitVec.xor_assoc, BitVec.xor_self, BitVec.xor_zero, ← shiftXor_xor,
      BitVec.xor_comm f] at hback

theorem eq_zero_of_period_off {y δ : BitVec 64}
    (h : ∀ f, f &&& m = 0#64 → tagHash (y ^^^ f ^^^ δ) = tagHash (y ^^^ f)) : δ = 0#64 := by
  have hperiod : PeriodOn (flippedOff m y) (shiftXor 30 δ) := by
    rintro x ⟨f, hf, rfl⟩
    rw [← shiftXor_xor]
    exact h f hf
  have hzero := (roomy_flippedOff htop hshift y).eq_zero_of_periodOn hperiod
  exact shiftXor_injective (by norm_num) (hzero.trans (by decide))

end Flips

end PrototypeNet
