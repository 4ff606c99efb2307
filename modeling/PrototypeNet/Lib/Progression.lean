import Mathlib

/-!
# Arithmetic progressions under a mask

Xoring the sixteen terms of an arithmetic progression of words with a mask
rarely gives a progression with the same step again.  If the multiples of the
step are spread over the circle of residues, only masks whose bits are all
equal do, the topmost bit apart: the mask zero keeps the progression, and the
mask of ones turns it around.
-/

namespace Progression

variable {step i z z' mask width : ℕ}

/-- Three of the first sixteen multiples of the step cut the circle of the
residues modulo `2 ^ (i + 1)` into arcs that are shorter than a half. -/
def Spread (step i : ℕ) : Prop :=
  ∃ k < 16, ∃ l < 16, step * k % 2 ^ (i + 1) < 2 ^ i ∧ 2 ^ i < step * l % 2 ^ (i + 1) ∧
    step * l % 2 ^ (i + 1) < 2 ^ i + step * k % 2 ^ (i + 1)

instance (step i : ℕ) : Decidable (Spread step i) :=
  inferInstanceAs (Decidable (∃ k < 16, ∃ l < 16, _))

theorem testBit_eq_decide_le (n i : ℕ) : n.testBit i = decide (2 ^ i ≤ n % 2 ^ (i + 1)) := by
  rw [Nat.testBit_eq_decide_div_mod_eq, pow_succ, Nat.mod_mul]
  have hlt := Nat.mod_lt n (show 0 < 2 ^ i by positivity)
  rcases Nat.mod_two_eq_zero_or_one (n / 2 ^ i) with h | h
  · simp [h]
    omega
  · simp [h]

theorem Spread.exists_testBit_ne (h : Spread step i) (z : ℕ) :
    ∃ k < 16, (z + step * k).testBit i ≠ z.testBit i := by
  obtain ⟨k, hk, l, hl, hk_low, hl_high, hlk⟩ := h
  by_contra hall
  push Not at hall
  have hsum (n : ℕ) : (z + n) % 2 ^ (i + 1) =
      if z % 2 ^ (i + 1) + n % 2 ^ (i + 1) < 2 * 2 ^ i then z % 2 ^ (i + 1) + n % 2 ^ (i + 1)
      else z % 2 ^ (i + 1) + n % 2 ^ (i + 1) - 2 * 2 ^ i := by
    have hz := Nat.mod_lt z (show 0 < 2 ^ (i + 1) by positivity)
    have hn := Nat.mod_lt n (show 0 < 2 ^ (i + 1) by positivity)
    rw [Nat.add_mod]
    rw [pow_succ'] at *
    split_ifs with hlt
    · exact Nat.mod_eq_of_lt hlt
    · rw [Nat.mod_eq_sub_mod (by omega), Nat.mod_eq_of_lt (by omega)]
  have hbit (n : ℕ) (hn : n < 16) := hall n hn
  simp only [testBit_eq_decide_le, hsum, decide_eq_decide] at hbit
  have hz := Nat.mod_lt z (show 0 < 2 ^ (i + 1) by positivity)
  have hk := hbit k hk
  have hl := hbit l hl
  rw [pow_succ'] at *
  split_ifs at hk hl <;> omega

/-- Sixteen terms, modulo `2 ^ width` and under the mask, are among sixteen
terms of another progression with the same step. -/
def Carries (step width z z' mask : ℕ) : Prop :=
  ∀ k < 16, ∃ k' < 16, (z + step * k) % 2 ^ width ^^^ mask = (z' + step * k') % 2 ^ width

/-- All sixteen terms, under the mask and divided by the step, lie in one half
of the circle of the residues modulo 32, the half that `turn` brings to the
front. -/
def fits (step inv z turn mask : ℕ) : Bool :=
  (List.range 16).all fun k ↦ (inv * ((z + step * k) % 32 ^^^ mask) + turn) % 32 < 16

/-- No even mask of four bits but zero does that. -/
def rigid (step inv : ℕ) : Bool :=
  (List.range 16).all fun z ↦ (List.range 32).all fun turn ↦ (List.range 7).all fun m ↦
    !fits step inv z turn (2 * (m + 1))

theorem modEq_of_mul_step {inv m n : ℕ} (hinv : inv * step ≡ 1 [MOD 32])
    (h : step * m ≡ step * n [MOD 32]) : m ≡ n [MOD 32] := by
  have hback (a : ℕ) : inv * (step * a) ≡ a [MOD 32] := by
    have := hinv.mul_right a
    rwa [one_mul, mul_assoc] at this
  exact (hback m).symm.trans ((h.mul_left inv).trans (hback n))

/-- Below its last bit, a mask leaves a number as it is. -/
theorem xor_eq_of_mod_eq_zero (hmask : mask % 2 ^ i = 0) (n : ℕ) :
    n ^^^ mask = 2 ^ i * (n / 2 ^ i ^^^ mask / 2 ^ i) + n % 2 ^ i := by
  have hlow : (n ^^^ mask) % 2 ^ i = n % 2 ^ i := by
    rw [Nat.xor_mod_two_pow, hmask, Nat.xor_zero]
  rw [← Nat.xor_div_two_pow, ← hlow, Nat.div_add_mod]

theorem xor_modEq_add {c p : ℕ} (hc : c % 2 = 1) : p ^^^ c ≡ p + 1 [MOD 2] := by
  have hxor := @Nat.xor_mod_two_pow p c 1
  rw [pow_one, hc] at hxor
  rw [Nat.ModEq, hxor, Nat.add_mod]
  rcases Nat.mod_two_eq_zero_or_one p with h | h <;> rw [h] <;> rfl

/-- A mask that adds the same to two numbers, as far as two bits show it, meets
the same bit in both. -/
theorem mod_two_eq_of_xor {c p q : ℕ} (hc : c % 2 = 1)
    (h : (p ^^^ c) + q ≡ (q ^^^ c) + p [MOD 4]) : p % 2 = q % 2 := by
  have hxor (n : ℕ) : (n ^^^ c) % 4 = n % 4 ^^^ c % 4 := @Nat.xor_mod_two_pow n c 2
  rw [Nat.ModEq, Nat.add_mod, hxor, Nat.add_mod (q ^^^ c), hxor] at h
  have hp : p % 4 % 2 = p % 2 := Nat.mod_mod_of_dvd p (by norm_num)
  have hq : q % 4 % 2 = q % 2 := Nat.mod_mod_of_dvd q (by norm_num)
  have hc' : c % 4 % 2 = 1 := (Nat.mod_mod_of_dvd c (by norm_num)).trans hc
  rw [← hp, ← hq]
  have hp_lt := Nat.mod_lt p (show 0 < 4 by norm_num)
  have hq_lt := Nat.mod_lt q (show 0 < 4 by norm_num)
  have hc_lt := Nat.mod_lt c (show 0 < 4 by norm_num)
  have hall : ∀ p < 4, ∀ q < 4, ∀ c < 4, c % 2 = 1 →
      ((p ^^^ c) + q) % 4 = ((q ^^^ c) + p) % 4 → p % 2 = q % 2 := by decide
  exact hall _ hp_lt _ hq_lt _ hc_lt hc' h

section Masks

variable (h : Carries step width z z' mask) (hlow : mask % 2 ^ i = 0)
  (hset : mask / 2 ^ i % 2 = 1)

include h hlow hset

/-- Beyond the last five bits, a progression carried by a mask keeps its order. -/
theorem eq_term {inv k : ℕ} (hinv : inv * step ≡ 1 [MOD 32]) (hi : 4 ≤ i) (hiw : i + 1 < width)
    (hk : k < 16) : (z + step * k) % 2 ^ width ^^^ mask = (z' + step * k) % 2 ^ width := by
  have hdvd : 32 ∣ 2 ^ (i + 1) := Nat.pow_dvd_pow 2 (show 5 ≤ i + 1 by omega)
  have hdvd' : 32 ∣ 2 ^ width := Nat.pow_dvd_pow 2 (show 5 ≤ width by omega)
  -- All terms are moved by the same residue modulo 32.
  have hmove : ∀ k < 16, ∃ k' < 16,
      (z + step * k) % 2 ^ width ^^^ mask = (z' + step * k') % 2 ^ width ∧
        z' + step * k' ≡ z + step * k + 2 ^ i [MOD 32] := by
    intro k hk
    obtain ⟨k', hk', heq⟩ := h k hk
    refine ⟨k', hk', heq, ?_⟩
    have hsum : (z + step * k) % 2 ^ width ^^^ mask ≡
        (z + step * k) % 2 ^ width + 2 ^ i [MOD 2 ^ (i + 1)] := by
      rw [xor_eq_of_mod_eq_zero hlow]
      have hbit := (xor_modEq_add (p := (z + step * k) % 2 ^ width / 2 ^ i) hset).mul_left' (2 ^ i)
      rw [← pow_succ, mul_add, mul_one] at hbit
      have hshift := hbit.add_right ((z + step * k) % 2 ^ width % 2 ^ i)
      rwa [add_right_comm, Nat.div_add_mod] at hshift
    have h32 := hsum.of_dvd hdvd
    rw [heq] at h32
    have hz := (Nat.mod_modEq (z + step * k) (2 ^ width)).of_dvd hdvd'
    have hz' := (Nat.mod_modEq (z' + step * k') (2 ^ width)).of_dvd hdvd'
    exact hz'.symm.trans (h32.trans (hz.add_right _))
  obtain ⟨first, hfirst, -, hfirst_mod⟩ := hmove 0 (by norm_num)
  obtain ⟨last, hlast, -, hlast_mod⟩ := hmove 15 (by norm_num)
  obtain ⟨k', hk', heq, hmod⟩ := hmove k hk
  have hfrom (m n : ℕ) (hm : z' + step * m ≡ z + step * n + 2 ^ i [MOD 32]) :
      m ≡ first + n [MOD 32] := by
    apply modEq_of_mul_step hinv
    apply Nat.ModEq.add_left_cancel' z'
    have hsum := hfirst_mod.add_right (step * n)
    rw [mul_zero, add_zero, add_assoc, ← mul_add, add_right_comm] at hsum
    exact hm.trans hsum.symm
  have hfirst_eq : first = 0 := by
    have := hfrom last 15 hlast_mod
    rw [Nat.ModEq] at this
    omega
  have hk_eq : k' = k := by
    have := hfrom k' k hmod
    rw [Nat.ModEq] at this
    omega
  rwa [hk_eq] at heq

/-- So the bit is the same in all terms. -/
theorem testBit_term {inv k : ℕ} (hinv : inv * step ≡ 1 [MOD 32]) (hi : 4 ≤ i)
    (hiw : i + 1 < width) (hk : k < 16) : (z + step * k).testBit i = z.testBit i := by
  have hterm (n : ℕ) (hn : n < 16) := eq_term h hlow hset hinv hi hiw hn
  have hdvd : 2 ^ (i + 2) ∣ 2 ^ width := Nat.pow_dvd_pow 2 (by omega)
  -- What the mask adds to the first term it adds to every other.
  have hsum (n : ℕ) (hn : n < 16) :
      2 ^ i * ((z + step * n) % 2 ^ width / 2 ^ i ^^^ mask / 2 ^ i) +
        (z + step * n) % 2 ^ width % 2 ^ i ≡ z' + step * n [MOD 2 ^ (i + 2)] := by
    rw [← xor_eq_of_mod_eq_zero hlow, hterm n hn]
    exact (Nat.mod_modEq _ _).of_dvd hdvd
  have hself (n : ℕ) : 2 ^ i * ((z + step * n) % 2 ^ width / 2 ^ i) +
      (z + step * n) % 2 ^ width % 2 ^ i ≡ z + step * n [MOD 2 ^ (i + 2)] := by
    rw [Nat.div_add_mod]
    exact (Nat.mod_modEq _ _).of_dvd hdvd
  generalize hV : (fun n ↦ (z + step * n) % 2 ^ width) = V at *
  have hV (n : ℕ) : V n = (z + step * n) % 2 ^ width := by rw [← hV]
  simp only [← hV] at hsum hself
  have hcross : 2 ^ i * ((V k / 2 ^ i ^^^ mask / 2 ^ i) + V 0 / 2 ^ i) ≡
      2 ^ i * ((V 0 / 2 ^ i ^^^ mask / 2 ^ i) + V k / 2 ^ i) [MOD 2 ^ i * 4] := by
    apply Nat.ModEq.add_right_cancel' (V k % 2 ^ i + V 0 % 2 ^ i)
    have hk_sum := (hsum k hk).add (hself 0)
    have hzero_sum := (hsum 0 (by norm_num)).add (hself k)
    rw [show z' + step * 0 + (z + step * k) = z' + step * k + (z + step * 0) by ring] at hzero_sum
    have hboth := hk_sum.trans hzero_sum.symm
    rw [pow_add, show 2 ^ 2 = 4 from rfl] at hboth
    convert hboth using 1 <;> ring
  have hmod := mod_two_eq_of_xor hset (Nat.ModEq.mul_left_cancel' (by positivity) hcross)
  have hbit (n : ℕ) : (z + step * n).testBit i = (V n).testBit i := by
    rw [hV, Nat.testBit_mod_two_pow, decide_eq_true (by omega), Bool.true_and]
  have hzero := hbit 0
  rw [mul_zero, add_zero] at hzero
  rw [hbit, hzero, Nat.testBit_eq_decide_div_mod_eq, Nat.testBit_eq_decide_div_mod_eq, hmod]

end Masks

/-- The fifth bit only adds to the term. -/
theorem xor_modEq_five (n q mask : ℕ) :
    (n + 16 * q) ^^^ mask ≡ (n % 32 ^^^ mask % 16) + 16 * (q + mask / 16) [MOD 32] := by
  have hall : ∀ n < 32, ∀ q < 2, ∀ mask < 32,
      ((n + 16 * q) % 32 ^^^ mask) % 32 = ((n ^^^ mask % 16) + 16 * (q + mask / 16)) % 32 := by
    decide +kernel
  have hcase := hall (n % 32) (Nat.mod_lt _ (by norm_num)) (q % 2) (Nat.mod_lt _ (by norm_num))
    (mask % 32) (Nat.mod_lt _ (by norm_num))
  have hxor := @Nat.xor_mod_two_pow (n + 16 * q) mask 5
  have hsum : (n % 32 + 16 * (q % 2)) % 32 = (n + 16 * q) % 32 := by omega
  rw [show 2 ^ 5 = 32 from rfl] at hxor
  rw [hsum, show mask % 32 % 16 = mask % 16 by omega] at hcase
  have hlt : (n + 16 * q) % 32 ^^^ mask % 32 < 32 := Nat.xor_lt_two_pow (n := 5)
    (Nat.mod_lt _ (by norm_num)) (Nat.mod_lt _ (by norm_num))
  rw [Nat.ModEq, hxor, ← Nat.mod_eq_of_lt hlt, hcase]
  omega

theorem mask_mod_sixteen {inv : ℕ} (hinv : inv * step ≡ 1 [MOD 32]) (hrigid : rigid step inv)
    (hwidth : 5 ≤ width) (h : Carries step width z z' mask) (heven : mask % 2 = 0) :
    mask % 16 = 0 := by
  by_contra hne
  have hrigid := List.all_eq_true.mp (List.all_eq_true.mp (List.all_eq_true.mp hrigid (z % 16)
    (List.mem_range.mpr (Nat.mod_lt _ (by norm_num))))
    ((16 * (z / 16 + mask / 16) + 31 * (inv * z')) % 32)
    (List.mem_range.mpr (Nat.mod_lt _ (by norm_num)))) (mask % 16 / 2 - 1)
    (List.mem_range.mpr (by omega))
  rw [show 2 * (mask % 16 / 2 - 1 + 1) = mask % 16 by omega, Bool.not_eq_true', fits] at hrigid
  obtain ⟨k, hk, hout⟩ := List.all_eq_false.mp hrigid
  obtain ⟨k', hk', heq⟩ := h k (List.mem_range.mp hk)
  apply hout
  have hdvd : 32 ∣ 2 ^ width := Nat.pow_dvd_pow 2 hwidth
  have hfive : (z % 16 + step * k) % 32 ^^^ mask % 16 ≡
      z' + step * k' + 16 * (z / 16 + mask / 16) [MOD 32] := by
    have hxor := xor_modEq_five (z % 16 + step * k) (z / 16) mask
    have hmod := congrArg (· % 2 ^ 5) heq
    simp only [Nat.xor_mod_two_pow, Nat.mod_mod_of_dvd _ (Nat.pow_dvd_pow 2 hwidth)] at hmod
    rw [← Nat.xor_mod_two_pow] at hmod
    rw [show z % 16 + step * k + 16 * (z / 16) = z + step * k by omega] at hxor
    have hsum := (hxor.symm.trans hmod).add_right (16 * (z / 16 + mask / 16))
    rw [Nat.ModEq] at hsum ⊢
    omega
  have hindex : inv * ((z % 16 + step * k) % 32 ^^^ mask % 16) +
      (16 * (z / 16 + mask / 16) + 31 * (inv * z')) % 32 ≡ k' [MOD 32] := by
    have hprod := hfive.mul_left inv
    have hodd : inv % 2 = 1 := by
      by_contra heven
      have hprod := Nat.mul_mod inv step 2
      rw [show inv % 2 = 0 by omega, zero_mul] at hprod
      rw [Nat.ModEq] at hinv
      omega
    have hhalf : inv * (16 * (z / 16 + mask / 16)) =
        16 * (z / 16 + mask / 16) + 32 * (inv / 2 * (z / 16 + mask / 16)) := by
      conv_lhs => rw [← Nat.div_add_mod inv 2, hodd]
      ring
    have hstep : inv * (step * k') ≡ k' [MOD 32] := by
      have := hinv.mul_right k'
      rwa [one_mul, mul_assoc] at this
    rw [mul_add, mul_add, hhalf] at hprod
    rw [Nat.ModEq] at hprod hstep ⊢
    omega
  rw [hindex, Nat.mod_eq_of_lt (by omega)]
  exact decide_eq_true hk'

theorem mask_mod_eq_zero {inv : ℕ} (hinv : inv * step ≡ 1 [MOD 32]) (hrigid : rigid step inv)
    (hwidth : 5 ≤ width) (hspread : ∀ i, 4 ≤ i → i + 1 < width → Spread step i)
    (h : Carries step width z z' mask) (heven : mask % 2 = 0) : mask % 2 ^ (width - 1) = 0 := by
  have hall : ∀ i, 4 ≤ i → i + 1 ≤ width → mask % 2 ^ i = 0 := by
    intro i hi
    induction i, hi using Nat.le_induction with
    | base =>
        exact fun _ ↦ mask_mod_sixteen hinv hrigid hwidth h heven
    | succ i hi ih =>
        intro hiw
        have hlow := ih (by omega)
        rw [pow_succ, Nat.mod_mul, hlow]
        rcases Nat.mod_two_eq_zero_or_one (mask / 2 ^ i) with hclear | hset
        · rw [hclear, mul_zero, add_zero]
        · exfalso
          obtain ⟨k, hk, hne⟩ := (hspread i hi (by omega)).exists_testBit_ne z
          exact hne (testBit_term h hlow hset hinv hi (by omega) hk)
  exact hall (width - 1) (by omega) (by omega)

theorem xor_ones {n : ℕ} (hn : n < 2 ^ width) : n ^^^ (2 ^ width - 1) = 2 ^ width - (n + 1) := by
  apply Nat.eq_of_testBit_eq
  intro i
  rw [Nat.testBit_xor, Nat.testBit_two_pow_sub_one, Nat.testBit_two_pow_sub_succ hn]
  by_cases hi : i < width
  · simp [hi]
  · simp [hi, Nat.testBit_lt_two_pow (hn.trans_le (Nat.pow_le_pow_right (by norm_num)
      (not_lt.mp hi)))]

/-- Complementing the second progression turns it around. -/
theorem Carries.complement (h : Carries step width z z' mask) :
    ∃ z'', Carries step width z z'' (mask ^^^ (2 ^ width - 1)) := by
  refine ⟨2 ^ width - (z' % 2 ^ width + 1) + (2 ^ width - 1) * (step * 15), fun k hk ↦ ?_⟩
  obtain ⟨k', hk', heq⟩ := h k hk
  refine ⟨15 - k', by omega, ?_⟩
  have hpos : 0 < 2 ^ width := by positivity
  have hlt := Nat.mod_lt (z' + step * k') hpos
  rw [← Nat.xor_assoc, heq, xor_ones hlt]
  have hz := Nat.mod_lt z' hpos
  -- The two terms add up to the word of ones.
  have hsum : 2 ^ width - (z' % 2 ^ width + 1) + (2 ^ width - 1) * (step * 15) +
      step * (15 - k') + (z' + step * k') =
        2 ^ width - 1 + 2 ^ width * (z' / 2 ^ width + step * 15) := by
    have hdiv := Nat.div_add_mod z' (2 ^ width)
    have hstep : step * (15 - k') + step * k' = step * 15 := by
      rw [← mul_add, Nat.sub_add_cancel (by omega)]
    have hones : (2 ^ width - 1) * (step * 15) + step * 15 = 2 ^ width * (step * 15) := by
      rw [Nat.sub_mul, one_mul, Nat.sub_add_cancel (Nat.le_mul_of_pos_left _ hpos)]
    rw [mul_add]
    omega
  have hmod := congrArg (· % 2 ^ width) hsum
  simp only [Nat.add_mul_mod_self_left, Nat.mod_eq_of_lt (show 2 ^ width - 1 < 2 ^ width by omega)]
    at hmod
  rw [Nat.add_mod] at hmod
  have hrest := Nat.mod_lt (2 ^ width - (z' % 2 ^ width + 1) + (2 ^ width - 1) * (step * 15) +
    step * (15 - k')) hpos
  generalize (2 ^ width - (z' % 2 ^ width + 1) + (2 ^ width - 1) * (step * 15) +
    step * (15 - k')) % 2 ^ width = rest at hmod hrest ⊢
  generalize (z' + step * k') % 2 ^ width = term at hmod hlt ⊢
  rcases lt_or_ge (rest + term) (2 ^ width) with hsmall | hlarge
  · rw [Nat.mod_eq_of_lt hsmall] at hmod
    omega
  · rw [Nat.mod_eq_sub_mod hlarge, Nat.mod_eq_of_lt (by omega)] at hmod
    omega

/-- A mask that carries one progression to another has equal bits up to the
last but one. -/
theorem Carries.testBit_eq {inv : ℕ} (h : Carries step width z z' mask)
    (hinv : inv * step ≡ 1 [MOD 32]) (hrigid : rigid step inv) (hwidth : 5 ≤ width)
    (hspread : ∀ i, 4 ≤ i → i + 1 < width → Spread step i) (hi : i + 1 < width) :
    mask.testBit i = mask.testBit 0 := by
  have hclear (m : ℕ) (hm : m % 2 ^ (width - 1) = 0) {j : ℕ} (hj : j + 1 < width) :
      m.testBit j = false := by
    have hbit := Nat.testBit_mod_two_pow m (width - 1) j
    rwa [hm, Nat.zero_testBit, decide_eq_true (by omega), Bool.true_and, eq_comm] at hbit
  rcases Nat.mod_two_eq_zero_or_one mask with heven | hodd_mask
  · have hmask := mask_mod_eq_zero hinv hrigid hwidth hspread h heven
    rw [hclear mask hmask hi, hclear mask hmask (by omega)]
  · obtain ⟨z'', hcarries⟩ := h.complement
    have heven : (mask ^^^ (2 ^ width - 1)) % 2 = 0 := by
      have hbit : (mask ^^^ (2 ^ width - 1)).testBit 0 = false := by
        rw [Nat.testBit_xor, Nat.testBit_two_pow_sub_one, Nat.testBit_zero,
          decide_eq_true hodd_mask, decide_eq_true (by omega), Bool.xor_self]
      rw [Nat.testBit_zero, decide_eq_false_iff_not] at hbit
      omega
    have hmask := mask_mod_eq_zero hinv hrigid hwidth hspread hcarries heven
    have hone {j : ℕ} (hj : j + 1 < width) : mask.testBit j = true := by
      have hbit := hclear _ hmask hj
      rw [Nat.testBit_xor, Nat.testBit_two_pow_sub_one, decide_eq_true (by omega)] at hbit
      simpa using hbit
    rw [hone hi, hone (by omega)]

/-! ## Multiples that are close -/

section Close

variable {inv modulus bound gap a a' s s' : ℕ}
  (hfar : ∀ d < gap, 0 < d → bound ≤ inv * d % modulus ∧ inv * d % modulus + bound ≤ modulus)

include hfar

theorem eq_of_close_le (hbound : bound ≤ modulus) (ha : a < bound) (ha' : a' < bound)
    (hs' : s' < gap) (hle : s ≤ s') (h : a + inv * s ≡ a' + inv * s' [MOD modulus]) : a = a' := by
  obtain ⟨d, rfl⟩ := Nat.exists_eq_add_of_le hle
  have hd : a ≡ a' + inv * d [MOD modulus] := by
    rw [mul_add, ← add_assoc, add_right_comm] at h
    exact Nat.ModEq.add_right_cancel' _ h
  rcases Nat.eq_zero_or_pos d with rfl | hpos
  · rw [mul_zero, add_zero] at hd
    exact Nat.ModEq.eq_of_lt_of_lt hd (by omega) (by omega)
  · exfalso
    obtain ⟨hlow, hhigh⟩ := hfar d (by omega) hpos
    rw [Nat.ModEq, ← Nat.add_mod_mod, Nat.mod_eq_of_lt (show a < modulus by omega),
      Nat.mod_eq_of_lt (show a' + inv * d % modulus < modulus by omega)] at hd
    omega

/-- Small numbers whose multiples are close to each other are equal, if the
inverse of the step takes small numbers to large ones. -/
theorem eq_of_close (hinv : inv * step ≡ 1 [MOD modulus]) (hbound : bound ≤ modulus)
    (ha : a < bound) (ha' : a' < bound) (hs : s < gap) (hs' : s' < gap)
    (h : step * a + s ≡ step * a' + s' [MOD modulus]) : a = a' := by
  have hdivide (m r : ℕ) : inv * (step * m + r) ≡ m + inv * r [MOD modulus] := by
    have hstep := hinv.mul_right m
    rw [one_mul, mul_assoc] at hstep
    rw [mul_add]
    exact hstep.add_right _
  have heq : a + inv * s ≡ a' + inv * s' [MOD modulus] :=
    (hdivide a s).symm.trans ((h.mul_left inv).trans (hdivide a' s'))
  rcases Nat.le_total s s' with hle | hle
  · exact eq_of_close_le hfar hbound ha ha' hs' hle heq
  · exact (eq_of_close_le hfar hbound ha' ha hs hle heq.symm).symm

end Close

end Progression
