import Mathlib

/-!
# Mixing the bits of a word

The steps of a multiply-and-shift mixer: a word is xored with a shift of
itself, which is linear and undone by two more shifts, and multiplied by an
odd constant.  Both are injective, and through both one can follow how far two
words agree from the low end and where they part.  A flipped bit of a factor
shows in the product at its own place and at the next.
-/

namespace WordMixing

variable {w : ℕ}

/-! ## Xoring with a shift -/

def shiftXor (n : ℕ) (x : BitVec w) : BitVec w :=
  x ^^^ (x >>> n)

def unshiftXor (n : ℕ) (x : BitVec w) : BitVec w :=
  x ^^^ (x >>> n) ^^^ (x >>> (2 * n))

theorem shiftXor_xor (n : ℕ) (x y : BitVec w) :
    shiftXor n (x ^^^ y) = shiftXor n x ^^^ shiftXor n y := by
  rw [shiftXor, shiftXor, shiftXor, BitVec.ushiftRight_xor_distrib]
  ac_rfl

theorem unshiftXor_shiftXor {n : ℕ} (h : w ≤ 3 * n) (x : BitVec w) :
    unshiftXor n (shiftXor n x) = x := by
  have hzero : x >>> (n + (n + n)) = 0#w := by
    apply BitVec.ushiftRight_eq_zero
    omega
  have hcancel : x ^^^ x >>> n ^^^ (x >>> n ^^^ x >>> (n + n)) ^^^ x >>> (n + n) =
      x ^^^ (x >>> n ^^^ x >>> n) ^^^ (x >>> (n + n) ^^^ x >>> (n + n)) := by
    ac_rfl
  simp only [unshiftXor, shiftXor, BitVec.ushiftRight_xor_distrib, ← BitVec.shiftRight_add,
    two_mul]
  rw [hzero, BitVec.xor_zero, hcancel, BitVec.xor_self, BitVec.xor_self, BitVec.xor_zero,
    BitVec.xor_zero]

theorem shiftXor_injective {n : ℕ} (h : w ≤ 3 * n) :
    Function.Injective (shiftXor n : BitVec w → BitVec w) :=
  Function.LeftInverse.injective (unshiftXor_shiftXor h)

/-! ## Multiplying by an odd constant -/

theorem mul_mul_inv {c d : BitVec w} (h : c * d = 1#w) (x : BitVec w) : x * c * d = x := by
  rw [BitVec.mul_assoc, h, BitVec.mul_one]

theorem mul_injective {c d : BitVec w} (h : c * d = 1#w) : Function.Injective fun x ↦ x * c :=
  Function.LeftInverse.injective (g := fun x ↦ x * d) (mul_mul_inv h)

/-! ## Xors -/

theorem and_eq_zero_iff_getLsbD {f m : BitVec w} :
    f &&& m = 0#w ↔ ∀ i < w, (f.getLsbD i && m.getLsbD i) = false := by
  constructor
  · intro h i hi
    rw [← BitVec.getLsbD_and, h, BitVec.getLsbD_zero]
  · intro h
    apply BitVec.eq_of_getLsbD_eq
    intro i hi
    rw [BitVec.getLsbD_and, h i hi, BitVec.getLsbD_zero]

theorem xor_and_eq_zero {f g m : BitVec w} (hf : f &&& m = 0#w) (hg : g &&& m = 0#w) :
    (f ^^^ g) &&& m = 0#w := by
  rw [and_eq_zero_iff_getLsbD] at *
  intro i hi
  rw [BitVec.getLsbD_xor, Bool.and_xor_distrib_right, hf i hi, hg i hi, Bool.xor_self]

/-- Moving an input by a key. -/
theorem xor_moved (a b c y : BitVec w) : b ^^^ (y ^^^ a ^^^ c) ^^^ c = y ^^^ (a ^^^ b) := by
  have h : b ^^^ (y ^^^ a ^^^ c) ^^^ c = y ^^^ (a ^^^ b) ^^^ (c ^^^ c) := by ac_rfl
  rw [h, BitVec.xor_self, BitVec.xor_zero]

/-! ## Flipping a bit -/

theorem add_twoPow_of_getLsbD_false {i : ℕ} {x : BitVec w} (h : x.getLsbD i = false) :
    x + BitVec.twoPow w i = x ^^^ BitVec.twoPow w i := by
  have hdisjoint : x &&& BitVec.twoPow w i = 0#w := by
    ext j hj
    by_cases hij : i = j
    · subst hij
      simp [← BitVec.getLsbD_eq_getElem, h]
    · simp [Ne.symm hij]
  rw [BitVec.add_eq_or_of_and_eq_zero _ _ hdisjoint]
  ext j hj
  have hbit := congrArg (fun y ↦ y[j]) hdisjoint
  simp only [BitVec.getElem_and, BitVec.getElem_zero] at hbit
  simp only [BitVec.getElem_or, BitVec.getElem_xor]
  revert hbit
  cases x[j] <;> cases (BitVec.twoPow w i)[j] <;> simp

/-- Adding a power of two, seen at its own bit and at the next. -/
theorem testBit_of_add_two_pow {i m n : ℕ} (h : m ≡ n + 2 ^ i [MOD 2 ^ (i + 2)]) :
    m.testBit i = !n.testBit i ∧ m.testBit (i + 1) = (n.testBit (i + 1) ^^ n.testBit i) := by
  have hquarter (k : ℕ) : k % 2 ^ (i + 2) / 2 ^ i = k / 2 ^ i % 4 := by
    rw [pow_add, Nat.mod_mul_right_div_self]
    norm_num
  have hdiv : m / 2 ^ i % 4 = (n / 2 ^ i + 1) % 4 := by
    rw [← hquarter, h, hquarter, Nat.add_div_right _ (by positivity)]
  have hlow (k : ℕ) : k.testBit i = (k / 2 ^ i % 4).testBit 0 := by
    rw [← hquarter, Nat.testBit_div_two_pow, Nat.testBit_mod_two_pow]
    simp
  have hhigh (k : ℕ) : k.testBit (i + 1) = (k / 2 ^ i % 4).testBit 1 := by
    rw [← hquarter, Nat.testBit_div_two_pow, Nat.testBit_mod_two_pow, Nat.add_comm 1 i]
    simp
  rw [hlow, hhigh, hlow n, hhigh n, hdiv, Nat.add_mod]
  have hlt : n / 2 ^ i % 4 < 4 := Nat.mod_lt _ (by norm_num)
  generalize n / 2 ^ i % 4 = q at hlt
  revert q
  decide

/-- A flipped bit of a factor, seen in the product at its own bit and at the
next. -/
theorem getLsbD_flip_mul {i : ℕ} {c : BitVec w} (hi : i + 1 < w) (hc : c.toNat % 4 = 1)
    (x : BitVec w) :
    ((x ^^^ BitVec.twoPow w i) * c).getLsbD i = !(x * c).getLsbD i ∧
      ((x ^^^ BitVec.twoPow w i) * c).getLsbD (i + 1) =
        ((x * c).getLsbD (i + 1) ^^ (x.getLsbD i ^^ (x * c).getLsbD i)) := by
  -- Adding the power of two adds just it to the product, as far as the two bits go.
  have hadd (y : BitVec w) (hy : y.getLsbD i = false) :
      ((y ^^^ BitVec.twoPow w i) * c).toNat ≡ (y * c).toNat + 2 ^ i [MOD 2 ^ (i + 2)] := by
    have hpow : 2 ^ i * c.toNat ≡ 2 ^ i [MOD 2 ^ (i + 2)] := by
      have := Nat.ModEq.mul_left' (2 ^ i) (show c.toNat ≡ 1 [MOD 4] from hc)
      rwa [mul_one, show 2 ^ i * 4 = 2 ^ (i + 2) by rw [pow_add]; norm_num] at this
    rw [← add_twoPow_of_getLsbD_false hy, BitVec.add_mul, BitVec.toNat_add]
    have hdvd : 2 ^ (i + 2) ∣ 2 ^ w := Nat.pow_dvd_pow 2 (by omega)
    rw [Nat.ModEq, Nat.mod_mod_of_dvd _ hdvd, BitVec.toNat_mul (BitVec.twoPow w i),
      BitVec.toNat_twoPow, Nat.mod_eq_of_lt (Nat.pow_lt_pow_right (by norm_num) (by omega))]
    exact Nat.ModEq.add_left _ (((Nat.mod_modEq _ _).of_dvd hdvd).trans hpow)
  cases hbit : x.getLsbD i with
  | false =>
      obtain ⟨hown, hnext⟩ := testBit_of_add_two_pow (hadd x hbit)
      exact ⟨hown, by rw [Bool.false_xor]; exact hnext⟩
  | true =>
      have hflip : (x ^^^ BitVec.twoPow w i).getLsbD i = false := by
        simp [hbit, show i < w by omega]
      have hback := hadd _ hflip
      rw [BitVec.xor_assoc, BitVec.xor_self, BitVec.xor_zero] at hback
      obtain ⟨hown, hnext⟩ := testBit_of_add_two_pow hback
      rw [← BitVec.getLsbD, ← BitVec.getLsbD] at hown hnext
      rw [← BitVec.getLsbD] at hnext
      generalize ((x ^^^ BitVec.twoPow w i) * c).getLsbD i = p at *
      generalize ((x ^^^ BitVec.twoPow w i) * c).getLsbD (i + 1) = q at *
      rw [hown, hnext]
      cases p <;> cases q <;> simp

/-- The bits of a product from `k` on: what is carried over from below, and the
product of the bits from `k` on. -/
theorem mul_mod_div_mod {k n m : ℕ} (h : k + n ≤ m) (t c : ℕ) :
    t * c % 2 ^ m / 2 ^ k % 2 ^ n = (t % 2 ^ k * c / 2 ^ k + c * (t / 2 ^ k % 2 ^ n)) % 2 ^ n := by
  obtain ⟨m, rfl⟩ := Nat.exists_eq_add_of_le h
  have hsplit : t * c = 2 ^ k * (c * (t / 2 ^ k)) + t % 2 ^ k * c := by
    conv_lhs => rw [← Nat.div_add_mod t (2 ^ k)]
    ring
  rw [pow_add, pow_add, mul_assoc, Nat.mod_mul_right_div_self,
    Nat.mod_mod_of_dvd _ (Dvd.intro _ rfl), hsplit, Nat.mul_add_div (by positivity), add_comm]
  exact Nat.ModEq.add_left _ ((Nat.mod_modEq _ _).symm.mul_left c)

/-! ## Flips that are not seen -/

/-- The function does not see the flip of the bits of `ε`. -/
def Period (ε : BitVec w) (g : BitVec w → Bool) : Prop :=
  ∀ x, g (x ^^^ ε) = g x

/-- Then it does not see it in the effect of another flip either. -/
theorem Period.flip {ε : BitVec w} {g : BitVec w → Bool} (h : Period ε g) (d : BitVec w) :
    Period ε fun x ↦ g (x ^^^ d) ^^ g x := by
  intro x
  have hswap : x ^^^ ε ^^^ d = x ^^^ d ^^^ ε := by ac_rfl
  simp only [hswap, h (x ^^^ d), h x]

/-! ## Where two words part -/

/-- The words agree below bit `k`. -/
def Agree (k : ℕ) (a b : BitVec w) : Prop :=
  ∀ i, i < k → a.getLsbD i = b.getLsbD i

/-- The words agree below bit `j` and differ there. -/
def Part (j : ℕ) (a b : BitVec w) : Prop :=
  Agree j a b ∧ a.getLsbD j ≠ b.getLsbD j

section Words

variable {k j n : ℕ} {a b c d x : BitVec w}

theorem Agree.symm (h : Agree k a b) : Agree k b a :=
  fun i hi ↦ (h i hi).symm

theorem Agree.trans (h : Agree k a b) (h' : Agree k b c) : Agree k a c :=
  fun i hi ↦ (h i hi).trans (h' i hi)

theorem Agree.mono (h : Agree k a b) (hjk : j ≤ k) : Agree j a b :=
  fun i hi ↦ h i (by omega)

theorem agree_iff_mod : Agree k a b ↔ a.toNat % 2 ^ k = b.toNat % 2 ^ k := by
  constructor
  · intro h
    apply Nat.eq_of_testBit_eq
    intro i
    rw [Nat.testBit_mod_two_pow, Nat.testBit_mod_two_pow]
    by_cases hi : i < k
    · rw [← BitVec.getLsbD, ← BitVec.getLsbD, h i hi]
    · simp [hi]
  · intro h i hi
    have hbit := congrArg (fun n ↦ n.testBit i) h
    simp only [Nat.testBit_mod_two_pow, hi, decide_true, Bool.true_and] at hbit
    exact hbit

theorem Agree.mul (h : Agree k a b) (hk : k ≤ w) (c : BitVec w) : Agree k (a * c) (b * c) := by
  rw [agree_iff_mod] at h ⊢
  rw [BitVec.toNat_mul, BitVec.toNat_mul, Nat.mod_mod_of_dvd _ (Nat.pow_dvd_pow 2 hk),
    Nat.mod_mod_of_dvd _ (Nat.pow_dvd_pow 2 hk)]
  exact Nat.ModEq.mul_right c.toNat h

theorem Agree.shiftXor (h : Agree (k + n) a b) : Agree k (shiftXor n a) (shiftXor n b) := by
  intro i hi
  simp only [WordMixing.shiftXor, BitVec.getLsbD_xor, BitVec.getLsbD_ushiftRight]
  rw [h i (by omega), h (n + i) (by omega)]

theorem Agree.xor (h : Agree k a b) (x : BitVec w) : Agree k (a ^^^ x) (b ^^^ x) := by
  intro i hi
  rw [BitVec.getLsbD_xor, BitVec.getLsbD_xor, h i hi]

theorem agree_succ : Agree (j + 1) a b ↔ Agree j a b ∧ a.getLsbD j = b.getLsbD j := by
  constructor
  · exact fun h ↦ ⟨h.mono (by omega), h j (by omega)⟩
  · rintro ⟨h, hj⟩ i hi
    rcases Nat.lt_succ_iff_lt_or_eq.mp hi with hlt | rfl
    · exact h i hlt
    · exact hj

theorem agree_flip (i : ℕ) (x : BitVec w) : Agree i (x ^^^ BitVec.twoPow w i) x := by
  intro k hk
  rw [BitVec.getLsbD_xor, BitVec.getLsbD_twoPow, show decide (i = k) = false by simp; omega,
    Bool.and_false, Bool.xor_false]

/-- An odd factor neither hides nor moves the place. -/
theorem Part.mul (h : Part j a b) (hj : j < w) (hinv : c * d = 1#w) : Part j (a * c) (b * c) := by
  refine ⟨h.1.mul hj.le c, fun heq ↦ h.2 ?_⟩
  have hback := (agree_succ.mpr ⟨h.1.mul hj.le c, heq⟩).mul hj d
  rw [mul_mul_inv hinv, mul_mul_inv hinv] at hback
  exact hback j (by omega)

theorem Part.shiftXor (h : Part (j + n) a b) (hn : 0 < n) :
    Part j (shiftXor n a) (shiftXor n b) := by
  refine ⟨h.1.shiftXor, ?_⟩
  have hj := h.1 j (by omega)
  have hne := h.2
  simp only [WordMixing.shiftXor, BitVec.getLsbD_xor, BitVec.getLsbD_ushiftRight, hj,
    Nat.add_comm n j]
  revert hne
  cases b.getLsbD j <;> cases a.getLsbD (j + n) <;> cases b.getLsbD (j + n) <;> simp

theorem exists_part (h : a ≠ b) : ∃ j, j < w ∧ Part j a b := by
  have hbit : ∃ j, a.getLsbD j ≠ b.getLsbD j := by
    by_contra hall
    push Not at hall
    exact h (BitVec.eq_of_getLsbD_eq fun i _ ↦ hall i)
  refine ⟨Nat.find hbit, ?_, fun i hi ↦ not_not.mp (Nat.find_min hbit hi), Nat.find_spec hbit⟩
  by_contra hge
  apply Nat.find_spec hbit
  rw [BitVec.getLsbD_of_ge _ _ (by omega), BitVec.getLsbD_of_ge _ _ (by omega)]

theorem Part.xor (h : Part j 0#w x) (a : BitVec w) : Part j a (a ^^^ x) := by
  constructor
  · intro i hi
    have hbit := h.1 i hi
    rw [BitVec.getLsbD_zero] at hbit
    rw [BitVec.getLsbD_xor, ← hbit, Bool.xor_false]
  · have hbit := h.2
    rw [BitVec.getLsbD_zero] at hbit
    rw [BitVec.getLsbD_xor]
    revert hbit
    cases a.getLsbD j <;> cases x.getLsbD j <;> simp

end Words

end WordMixing
