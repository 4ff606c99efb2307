import PrototypeNet.Common.ProxySource
import PrototypeNet.Lib.WordMixing

/-!
# The middle of the mixer

Between its first and its last shift, `mix64` multiplies, xors the word with a
shift of itself and multiplies again.  What the first bits of the result and
the bits in its middle say about the word is found here, with the top four bits
of the word as the only ones that are changed at will.
-/

namespace PrototypeNet

open WordMixing

def firstProduct (x : BitVec 64) : BitVec 64 :=
  x * 0xbf58476d1ce4e5b9

def stir (x : BitVec 64) : BitVec 64 :=
  shiftXor 27 (firstProduct x) * 0x94d049bb133111eb

theorem mix64_eq_stir (y : BitVec 64) : mix64 y = shiftXor 31 (stir (shiftXor 30 y)) := rfl

theorem toNat_firstProduct (x : BitVec 64) :
    (firstProduct x).toNat = x.toNat * 0xbf58476d1ce4e5b9 % 2 ^ 64 := by
  rw [firstProduct, BitVec.toNat_mul]
  rfl

theorem toNat_stir (x : BitVec 64) :
    (stir x).toNat =
      (shiftXor 27 (firstProduct x)).toNat * 0x94d049bb133111eb % 2 ^ 64 := by
  rw [stir, BitVec.toNat_mul]
  rfl

section Words

variable {k j : ℕ} {x y : BitVec 64}

theorem agree_firstProduct (hk : k ≤ 64) (h : Agree k x y) :
    Agree k (firstProduct x) (firstProduct y) :=
  h.mul hk _

theorem agree_shifted (hk : k + 27 ≤ 64) (h : Agree (k + 27) x y) :
    Agree k (shiftXor 27 (firstProduct x)) (shiftXor 27 (firstProduct y)) :=
  (agree_firstProduct hk h).shiftXor

theorem agree_stir (hk : k + 27 ≤ 64) (h : Agree (k + 27) x y) : Agree k (stir x) (stir y) :=
  (agree_shifted hk h).mul (by omega) _

/-- The place where two words part goes through the mixer in the open. -/
theorem part_shifted (hj : j + 27 < 64) (h : Part (j + 27) x y) :
    Part j (shiftXor 27 (firstProduct x)) (shiftXor 27 (firstProduct y)) :=
  (h.mul hj (d := 0x96de1b173f119089) (by decide)).shiftXor (by norm_num)

theorem part_stir (hj : j + 27 < 64) (h : Part (j + 27) x y) : Part j (stir x) (stir y) :=
  (part_shifted hj h).mul (by omega) (d := 0x319642b2d24d8ec3) (by decide)

theorem stir_injective : Function.Injective stir :=
  (mul_injective (d := 0x319642b2d24d8ec3) (by decide)).comp
    ((shiftXor_injective (by norm_num)).comp
      (mul_injective (d := 0x96de1b173f119089) (by decide)))

end Words

/-! ## The third bit -/

section Flips

variable {i k : ℕ} (x : BitVec 64)

theorem firstProduct_flip_own (hi : i < 63) :
    (firstProduct (x ^^^ BitVec.twoPow 64 i)).getLsbD i = !(firstProduct x).getLsbD i :=
  (getLsbD_flip_mul (by omega) (by decide) x).1

theorem firstProduct_flip_next (hi : i < 63) :
    (firstProduct (x ^^^ BitVec.twoPow 64 i)).getLsbD (i + 1) =
      ((firstProduct x).getLsbD (i + 1) ^^ (x.getLsbD i ^^ (firstProduct x).getLsbD i)) :=
  (getLsbD_flip_mul (by omega) (by decide) x).2

theorem firstProduct_flip_low (hi : i < 63) (hk : k < i) :
    (firstProduct (x ^^^ BitVec.twoPow 64 i)).getLsbD k = (firstProduct x).getLsbD k :=
  agree_firstProduct (by omega) (agree_flip i x) k hk

end Flips

theorem getLsbD_stir_two (x : BitVec 64) :
    (stir x).getLsbD 2 = (((firstProduct x).getLsbD 2 ^^ (firstProduct x).getLsbD 29) ^^
      (((firstProduct x).getLsbD 1 ^^ (firstProduct x).getLsbD 28) &&
        !((firstProduct x).getLsbD 0 ^^ (firstProduct x).getLsbD 27))) := by
  have hprod (t : BitVec 64) : (t * 0x94d049bb133111eb).getLsbD 2 =
      (t.getLsbD 2 ^^ (t.getLsbD 1 && !t.getLsbD 0)) := by
    have hsmall : ∀ s : BitVec 3, (s * 3).getLsbD 2 =
        (s.getLsbD 2 ^^ (s.getLsbD 1 && !s.getLsbD 0)) := by decide
    have hwidth : (t * 0x94d049bb133111eb).setWidth 3 = t.setWidth 3 * 3 := by
      rw [BitVec.setWidth_mul _ _ (by norm_num)]
      rfl
    have hbit := hsmall (t.setWidth 3)
    rw [← hwidth] at hbit
    simpa only [BitVec.getLsbD_setWidth, Nat.reduceLT, decide_true, Bool.true_and] using hbit
  rw [stir, hprod]
  simp only [shiftXor, BitVec.getLsbD_xor, BitVec.getLsbD_ushiftRight, Nat.reduceAdd]

/-- The third bit sees the low thirty bits of the word. -/
theorem stir_two_congr {x y : BitVec 64} (h : Agree 30 x y) :
    (stir x).getLsbD 2 = (stir y).getLsbD 2 :=
  agree_stir (k := 3) (by norm_num) h 2 (by norm_num)

section ThirdBit

variable {ε : BitVec 64}

/-- Flipping bit 28 shows the carry into the next bit of the product. -/
theorem stir_two_flip (x : BitVec 64) :
    ((stir (x ^^^ BitVec.twoPow 64 28)).getLsbD 2 ^^ (stir x).getLsbD 2) =
      !((x.getLsbD 28 ^^ (firstProduct x).getLsbD 28) ^^
        ((firstProduct x).getLsbD 0 ^^ (firstProduct x).getLsbD 27)) := by
  rw [getLsbD_stir_two, getLsbD_stir_two, firstProduct_flip_own x (by norm_num),
    firstProduct_flip_next x (by norm_num), firstProduct_flip_low x (by norm_num) (by norm_num),
    firstProduct_flip_low x (by norm_num) (by norm_num),
    firstProduct_flip_low x (by norm_num) (by norm_num),
    firstProduct_flip_low x (by norm_num) (by norm_num)]
  generalize (firstProduct x).getLsbD 0 = p₀, (firstProduct x).getLsbD 1 = p₁,
    (firstProduct x).getLsbD 2 = p₂, (firstProduct x).getLsbD 27 = p₂₇,
    (firstProduct x).getLsbD 28 = p₂₈, (firstProduct x).getLsbD 29 = p₂₉, x.getLsbD 28 = b
  revert p₀ p₁ p₂ p₂₇ p₂₈ p₂₉ b
  decide

/-- Flipping bit 27 as well shows a bit of the product itself. -/
theorem period_twenty_seven (h : Period ε fun x ↦ (stir x).getLsbD 2) :
    Period ε fun x ↦ x.getLsbD 27 ^^ (firstProduct x).getLsbD 27 := by
  have hfirst : Period ε fun x ↦ ((x.getLsbD 28 ^^ (firstProduct x).getLsbD 28) ^^
      ((firstProduct x).getLsbD 0 ^^ (firstProduct x).getLsbD 27)) := by
    intro x
    have hflip := h.flip (BitVec.twoPow 64 28) x
    simpa only [stir_two_flip, Bool.not_inj_iff] using hflip
  have hsecond (x : BitVec 64) :
      ((((x ^^^ BitVec.twoPow 64 27).getLsbD 28 ^^
        (firstProduct (x ^^^ BitVec.twoPow 64 27)).getLsbD 28) ^^
          ((firstProduct (x ^^^ BitVec.twoPow 64 27)).getLsbD 0 ^^
            (firstProduct (x ^^^ BitVec.twoPow 64 27)).getLsbD 27)) ^^
        ((x.getLsbD 28 ^^ (firstProduct x).getLsbD 28) ^^
          ((firstProduct x).getLsbD 0 ^^ (firstProduct x).getLsbD 27))) =
      !(x.getLsbD 27 ^^ (firstProduct x).getLsbD 27) := by
    have hup : (x ^^^ BitVec.twoPow 64 27).getLsbD 28 = x.getLsbD 28 := by simp
    rw [hup, firstProduct_flip_own x (by norm_num), firstProduct_flip_next x (by norm_num),
      firstProduct_flip_low x (by norm_num) (by norm_num)]
    generalize (firstProduct x).getLsbD 0 = p₀, (firstProduct x).getLsbD 27 = p₂₇,
      (firstProduct x).getLsbD 28 = p₂₈, x.getLsbD 27 = b₂₇, x.getLsbD 28 = b₂₈
    revert p₀ p₂₇ p₂₈ b₂₇ b₂₈
    decide
  intro x
  have hflip := hfirst.flip (BitVec.twoPow 64 27) x
  simpa only [hsecond, Bool.not_inj_iff] using hflip

/-- The same holds for every lower bit, since flipping it shows the carry that
leaves it. -/
theorem period_firstProduct (h : Period ε fun x ↦ (stir x).getLsbD 2) {i : ℕ} (hi : i ≤ 27) :
    Period ε fun x ↦ x.getLsbD i ^^ (firstProduct x).getLsbD i := by
  induction hi using Nat.decreasingInduction with
  | self => exact period_twenty_seven h
  | of_succ i hi ih =>
      intro x
      have hflip := ih.flip (BitVec.twoPow 64 i) x
      have hcarry (y : BitVec 64) :
          (((y ^^^ BitVec.twoPow 64 i).getLsbD (i + 1) ^^
            (firstProduct (y ^^^ BitVec.twoPow 64 i)).getLsbD (i + 1)) ^^
              (y.getLsbD (i + 1) ^^ (firstProduct y).getLsbD (i + 1))) =
            (y.getLsbD i ^^ (firstProduct y).getLsbD i) := by
        have hup : (y ^^^ BitVec.twoPow 64 i).getLsbD (i + 1) = y.getLsbD (i + 1) := by
          simp
        rw [hup, firstProduct_flip_next y (by omega)]
        generalize (firstProduct y).getLsbD (i + 1) = p, y.getLsbD (i + 1) = b,
          (y.getLsbD i ^^ (firstProduct y).getLsbD i) = carry
        revert p b carry
        decide
      simpa only [hcarry] using hflip

theorem pow_dvd_of_mul_modEq {e : ℕ} (h : e * 0xbf58476d1ce4e5b9 ≡ e [MOD 2 ^ 28]) :
    2 ^ 25 ∣ e := by
  have hle : e ≤ e * 0xbf58476d1ce4e5b9 := Nat.le_mul_of_pos_right e (by norm_num)
  have hdvd := (Nat.modEq_iff_dvd' hle).mp h.symm
  have hfactor : e * 0xbf58476d1ce4e5b9 - e = 2 ^ 3 * (0x17eb08eda39c9cb7 * e) := by
    rw [← Nat.mul_sub_one]
    ring
  rw [hfactor, show (2 : ℕ) ^ 28 = 2 ^ 3 * 2 ^ 25 by norm_num] at hdvd
  exact Nat.Coprime.dvd_of_dvd_mul_left (by norm_num)
    (Nat.dvd_of_mul_dvd_mul_left (by norm_num) hdvd)

/-- The third bit has no period in the bits that it sees. -/
theorem low_eq_zero_of_period (h : Period ε fun x ↦ (stir x).getLsbD 2) :
    ε.toNat % 2 ^ 30 = 0 := by
  -- At the word zero, the product with `ε` has the bits of `ε`.
  have hfix : (firstProduct ε).toNat % 2 ^ 28 = ε.toNat % 2 ^ 28 := by
    rw [← agree_iff_mod]
    intro i hi
    have hzero := period_firstProduct h (show i ≤ 27 by omega) 0#64
    simp only [BitVec.zero_xor, show firstProduct 0#64 = 0#64 by decide, Bool.xor_self,
      bne_eq_false_iff_eq] at hzero
    exact hzero.symm
  have hlow : 2 ^ 25 ∣ ε.toNat := by
    rw [firstProduct, BitVec.toNat_mul, Nat.mod_mod_of_dvd _ (by norm_num)] at hfix
    exact pow_dvd_of_mul_modEq hfix
  -- So five bits are left, and three words exclude them.
  have hfive : ∀ t : BitVec 5,
      (stir (0#64 ^^^ t.setWidth 64 <<< 25)).getLsbD 2 = (stir 0#64).getLsbD 2 →
      (stir (0x10#64 ^^^ t.setWidth 64 <<< 25)).getLsbD 2 = (stir 0x10#64).getLsbD 2 →
      (stir (0x200#64 ^^^ t.setWidth 64 <<< 25)).getLsbD 2 = (stir 0x200#64).getLsbD 2 →
        t = 0#5 := by
    decide +kernel
  have hagree : Agree 30 ((BitVec.ofNat 5 (ε.toNat / 2 ^ 25)).setWidth 64 <<< 25) ε := by
    rw [agree_iff_mod]
    simp only [BitVec.toNat_shiftLeft, BitVec.toNat_setWidth, BitVec.toNat_ofNat,
      Nat.shiftLeft_eq]
    omega
  have hperiod (x : BitVec 64) :
      (stir (x ^^^ (BitVec.ofNat 5 (ε.toNat / 2 ^ 25)).setWidth 64 <<< 25)).getLsbD 2 =
        (stir x).getLsbD 2 := by
    refine Eq.trans (stir_two_congr ?_) (h x)
    rw [BitVec.xor_comm x, BitVec.xor_comm x ε]
    exact hagree.xor x
  rw [hfive _ (hperiod _) (hperiod _) (hperiod _), agree_iff_mod,
    show ((0#5).setWidth 64 <<< 25).toNat = 0 by decide, Nat.zero_mod] at hagree
  exact hagree.symm

end ThirdBit

/-! ## Where the topmost bits meet lower ones -/

/-- The bits from `k` on that the topmost bits of the first product reach. -/
def crossing (k : ℕ) (x : BitVec 64) : ℕ :=
  (shiftXor 27 (firstProduct x)).toNat / 2 ^ k % 2 ^ (37 - k)

theorem crossing_lt (k : ℕ) (x : BitVec 64) : crossing k x < 2 ^ (37 - k) :=
  Nat.mod_lt _ (by positivity)

theorem toNat_shifted_div (x : BitVec 64) (k : ℕ) :
    (shiftXor 27 (firstProduct x)).toNat / 2 ^ k =
      (firstProduct x).toNat / 2 ^ k ^^^ (firstProduct x).toNat / 2 ^ (27 + k) := by
  rw [shiftXor, BitVec.toNat_xor, BitVec.toNat_ushiftRight, Nat.shiftRight_eq_div_pow,
    Nat.xor_div_two_pow, Nat.div_div_eq_div_mul, pow_add]

/-- For words that agree in all that is below, the bits of the stirred word
from `k` on are linear in the crossing. -/
theorem stir_of_agree {k : ℕ} (hk : 10 ≤ k) (hk' : k ≤ 37) (x : BitVec 64) :
    ∃ z, ∀ y, Agree (k + 27) y x →
      (stir y).toNat / 2 ^ k % 2 ^ 27 = (z + 0x94d049bb133111eb * crossing k y) % 2 ^ 27 := by
  refine ⟨(shiftXor 27 (firstProduct x)).toNat % 2 ^ k * 0x94d049bb133111eb / 2 ^ k +
    0x94d049bb133111eb * (2 ^ (37 - k) * ((firstProduct x).toNat / 2 ^ 37 % 2 ^ (k - 10))),
    fun y hy ↦ ?_⟩
  have hlow := agree_iff_mod.mp (agree_shifted (by omega) hy)
  have hhigh : (shiftXor 27 (firstProduct y)).toNat / 2 ^ 37 % 2 ^ (k - 10) =
      (firstProduct x).toNat / 2 ^ 37 % 2 ^ (k - 10) := by
    have hmod := agree_iff_mod.mp (agree_firstProduct (by omega) hy)
    have hlt := (firstProduct y).isLt
    rw [toNat_shifted_div, Nat.div_eq_of_lt (show _ < 2 ^ (27 + 37) from hlt), Nat.xor_zero,
      ← Nat.mod_mul_right_div_self, ← Nat.mod_mul_right_div_self, ← pow_add,
      show 37 + (k - 10) = k + 27 by omega, hmod]
  have hparts : (shiftXor 27 (firstProduct y)).toNat / 2 ^ k % 2 ^ 27 =
      2 ^ (37 - k) * ((firstProduct x).toNat / 2 ^ 37 % 2 ^ (k - 10)) + crossing k y := by
    rw [← hhigh, crossing, show 27 = 37 - k + (k - 10) by omega, pow_add, Nat.mod_mul,
      Nat.div_div_eq_div_mul, ← pow_add, show k + (37 - k) = 37 by omega, add_comm]
  rw [toNat_stir, mul_mod_div_mod (by omega), hlow, hparts, mul_add, add_assoc]

/-! ## The top four bits -/

/-- The word with other top four bits. -/
def withTop (x : BitVec 64) (v : ℕ) : BitVec 64 :=
  BitVec.ofNat 64 (2 ^ 60 * v + x.toNat % 2 ^ 60)

section Top

variable {v : ℕ}

theorem toNat_withTop (x : BitVec 64) (hv : v < 16) :
    (withTop x v).toNat = 2 ^ 60 * v + x.toNat % 2 ^ 60 := by
  rw [withTop, BitVec.toNat_ofNat]
  omega

theorem top_xor_lt (hv : v < 16) (ε : BitVec 64) : v ^^^ ε.toNat / 2 ^ 60 < 16 :=
  Nat.xor_lt_two_pow (n := 4) hv (by omega)

theorem withTop_xor (x ε : BitVec 64) (hv : v < 16) :
    withTop x v ^^^ ε = withTop (x ^^^ ε) (v ^^^ ε.toNat / 2 ^ 60) := by
  apply BitVec.eq_of_toNat_eq
  rw [BitVec.toNat_xor, toNat_withTop _ hv, toNat_withTop _ (top_xor_lt hv ε), BitVec.toNat_xor]
  have hdiv : (2 ^ 60 * v + x.toNat % 2 ^ 60) / 2 ^ 60 = v := by omega
  have hmod : (2 ^ 60 * v + x.toNat % 2 ^ 60) % 2 ^ 60 = x.toNat % 2 ^ 60 := by omega
  rw [← Nat.div_add_mod ((2 ^ 60 * v + x.toNat % 2 ^ 60) ^^^ ε.toNat) (2 ^ 60),
    Nat.xor_div_two_pow, Nat.xor_mod_two_pow, Nat.xor_mod_two_pow, hdiv, hmod]

theorem agree_withTop (x : BitVec 64) (hv : v < 16) : Agree 60 (withTop x v) x := by
  rw [agree_iff_mod, toNat_withTop x hv]
  omega

/-- The four bits that the top four bits of the first product meet. -/
theorem crossing_thirty_three (x : BitVec 64) :
    crossing 33 x =
      (firstProduct x).toNat / 2 ^ 33 % 16 ^^^ (firstProduct x).toNat / 2 ^ 60 := by
  have hlt := (firstProduct x).isLt
  have hxor := @Nat.xor_mod_two_pow ((firstProduct x).toNat / 2 ^ 33)
    ((firstProduct x).toNat / 2 ^ 60) 4
  rw [crossing, toNat_shifted_div, show 37 - 33 = 4 from rfl, hxor]
  exact congrArg _ (Nat.mod_eq_of_lt (by omega))

theorem toNat_firstProduct_top (x : BitVec 64) (hv : v < 16) :
    (firstProduct (withTop x v)).toNat / 2 ^ 60 =
      (9 * v + x.toNat % 2 ^ 60 * 0xbf58476d1ce4e5b9 / 2 ^ 60) % 16 := by
  rw [toNat_firstProduct, toNat_withTop x hv, show (2 : ℕ) ^ 64 = 2 ^ 60 * 16 by norm_num,
    Nat.mod_mul_right_div_self, add_mul, mul_assoc, Nat.mul_add_div (by norm_num)]
  omega

/-- With the top four bits of the word, every value is reached there. -/
theorem exists_crossing (x : BitVec 64) {a : ℕ} (ha : a < 16) :
    ∃ v < 16, crossing 33 (withTop x v) = a := by
  have hmid (v : ℕ) (hv : v < 16) : (firstProduct (withTop x v)).toNat / 2 ^ 33 % 16 =
      (firstProduct x).toNat / 2 ^ 33 % 16 := by
    have hagree := agree_iff_mod.mp (agree_firstProduct (by norm_num) (agree_withTop x hv))
    omega
  generalize hcarry : x.toNat % 2 ^ 60 * 0xbf58476d1ce4e5b9 / 2 ^ 60 = carry
  obtain ⟨b, hb⟩ : ∃ b, b = (firstProduct x).toNat / 2 ^ 33 % 16 ^^^ a := ⟨_, rfl⟩
  have hb_lt : b < 16 := by
    rw [hb]
    exact Nat.xor_lt_two_pow (n := 4) (Nat.mod_lt _ (by norm_num)) ha
  -- Nine is its own inverse modulo 16.
  refine ⟨9 * (b + 16 - carry % 16) % 16, Nat.mod_lt _ (by norm_num), ?_⟩
  have htop := toNat_firstProduct_top x (Nat.mod_lt (9 * (b + 16 - carry % 16))
    (show 0 < 16 by norm_num))
  rw [hcarry, show (9 * (9 * (b + 16 - carry % 16) % 16) + carry) % 16 = b by omega] at htop
  rw [crossing_thirty_three, hmid _ (Nat.mod_lt _ (by norm_num)), htop, hb, ← Nat.xor_assoc,
    Nat.xor_self, Nat.zero_xor]

end Top

end PrototypeNet
