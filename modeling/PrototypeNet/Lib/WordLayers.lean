import PrototypeNet.Lib.ByteWords

/-!
# Layers of a block cipher

Three ways in which a cipher works on a word: cut into chunks of equal width
that are treated one by one, as a linear map over xor, and row by row, where
the rows are cut out by masks and rotated.  Each has one rule that reduces an
inverse of the whole layer to a fact about its parts.
-/

namespace WordLayers

variable {w k : ℕ}

/-! ## Chunks -/

/-- The `i`-th chunk of `k` bits, counted from the least significant one. -/
def chunk (k i : ℕ) (x : BitVec w) : BitVec k :=
  (x >>> (k * i)).setWidth k

/-- The word with the given first `n` chunks and zeros above. -/
def fromChunks (w : ℕ) (f : ℕ → BitVec k) : ℕ → BitVec w
  | 0 => 0
  | n + 1 => fromChunks w f n ||| (f n).setWidth w <<< (k * n)

theorem getLsbD_chunk (x : BitVec w) (i : ℕ) {j : ℕ} (hj : j < k) :
    (chunk k i x).getLsbD j = x.getLsbD (k * i + j) := by
  rw [chunk, BitVec.getLsbD_setWidth, BitVec.getLsbD_ushiftRight, decide_eq_true hj,
    Bool.true_and]

theorem getLsbD_fromChunks (f : ℕ → BitVec k) {n i j : ℕ} (hj : j < k) (hw : k * i + j < w) :
    (fromChunks w f n).getLsbD (k * i + j) = (decide (i < n) && (f i).getLsbD j) := by
  induction n with
  | zero => simp [fromChunks]
  | succ n ih =>
      rw [fromChunks, BitVec.getLsbD_or, ih, BitVec.getLsbD_shiftLeft, BitVec.getLsbD_setWidth,
        decide_eq_true hw, Bool.true_and]
      rcases lt_trichotomy i n with hi | rfl | hi
      · -- The new chunk lies above the bit.
        have hlow : k * i + j < k * n := by
          have : k * (i + 1) ≤ k * n := Nat.mul_le_mul_left k hi
          rw [Nat.mul_succ] at this
          omega
        simp [hi, hlow, Nat.lt_succ_of_lt hi]
      · have hle : ¬ k * i + j < k * i := by omega
        have hlt : j < w := by omega
        simp [hle, hlt]
      · -- The bit lies above the new chunk.
        have hhigh : k * n + k ≤ k * i := by
          have : k * (n + 1) ≤ k * i := Nat.mul_le_mul_left k hi
          rwa [Nat.mul_succ] at this
        have hzero : (f n).getLsbD (k * i + j - k * n) = false :=
          BitVec.getLsbD_of_ge _ _ (by omega)
        have hn : ¬ i < n := by omega
        have hn' : ¬ i < n + 1 := by omega
        simp [hn, hn', hzero]

/-- Chunks that fit into the word can be read back. -/
theorem chunk_fromChunks (f : ℕ → BitVec k) {n i : ℕ} (hw : k * n ≤ w) (hi : i < n) :
    chunk k i (fromChunks w f n) = f i := by
  apply BitVec.eq_of_getLsbD_eq
  intro j hj
  have hbound : k * i + j < w := by
    have : k * (i + 1) ≤ k * n := Nat.mul_le_mul_left k hi
    rw [Nat.mul_succ] at this
    omega
  rw [getLsbD_chunk _ _ hj, getLsbD_fromChunks f hj hbound, decide_eq_true hi, Bool.true_and]

theorem fromChunks_chunk {n : ℕ} (hw : k * n = w) (x : BitVec w) :
    fromChunks w (fun i ↦ chunk k i x) n = x := by
  apply BitVec.eq_of_getLsbD_eq
  intro i hi
  have hk : 0 < k := by
    rcases Nat.eq_zero_or_pos k with rfl | h
    · omega
    · exact h
  have hj : i % k < k := Nat.mod_lt i hk
  have hn : i / k < n := (Nat.div_lt_iff_lt_mul hk).mpr (by rw [Nat.mul_comm]; omega)
  rw [← Nat.div_add_mod i k, getLsbD_fromChunks _ hj (by rw [Nat.div_add_mod]; exact hi),
    getLsbD_chunk _ _ hj, decide_eq_true hn, Bool.true_and]

theorem fromChunks_congr {f g : ℕ → BitVec k} {n : ℕ} (h : ∀ i < n, f i = g i) :
    fromChunks w f n = fromChunks w g n := by
  induction n with
  | zero => rfl
  | succ n ih =>
      rw [fromChunks, fromChunks, ih fun i hi ↦ h i (Nat.lt_succ_of_lt hi),
        h n (Nat.lt_succ_self n)]

/-- A loop that adds one chunk after the other assembles the word. -/
theorem foldl_or_eq_fromChunks (f : ℕ → BitVec k) (n : ℕ) :
    (List.range n).foldl (fun out i ↦ out ||| (f i).setWidth w <<< (k * i)) 0 =
      fromChunks w f n := by
  induction n with
  | zero => rfl
  | succ n ih =>
      rw [List.range_succ, List.foldl_append, ih]
      rfl

/-- A chunkwise layer: every chunk goes through its own function. -/
def layer (n : ℕ) (f : ℕ → BitVec k → BitVec k) (x : BitVec w) : BitVec w :=
  fromChunks w (fun i ↦ f i (chunk k i x)) n

/-- A layer is undone chunk by chunk. -/
theorem layer_layer {n : ℕ} {f g : ℕ → BitVec k → BitVec k} (hw : k * n = w)
    (h : ∀ i < n, ∀ c, g i (f i c) = c) (x : BitVec w) : layer n g (layer n f x) = x := by
  calc layer n g (layer n f x)
      = fromChunks w (fun i ↦ chunk k i x) n := by
        apply fromChunks_congr
        intro i hi
        rw [layer, chunk_fromChunks _ hw.le hi, h i hi]
    _ = x := fromChunks_chunk hw x

/-! ## Linear maps -/

def Linear (f : BitVec w → BitVec w) : Prop :=
  ∀ x y, f (x ^^^ y) = f x ^^^ f y

theorem Linear.zero {f : BitVec w → BitVec w} (h : Linear f) : f 0#w = 0#w := by
  have hz := h 0#w 0#w
  rwa [BitVec.xor_self, BitVec.xor_self] at hz

theorem Linear.comp {f g : BitVec w → BitVec w} (hf : Linear f) (hg : Linear g) :
    Linear (f ∘ g) := by
  intro x y
  rw [Function.comp_apply, hg, hf]
  rfl

/-- The bits of a word below `n`. -/
def lowBits (n : ℕ) (x : BitVec w) : BitVec w :=
  (x.setWidth n).setWidth w

theorem getLsbD_lowBits (n : ℕ) (x : BitVec w) {i : ℕ} (hi : i < w) :
    (lowBits n x).getLsbD i = (decide (i < n) && x.getLsbD i) := by
  rw [lowBits, BitVec.getLsbD_setWidth, BitVec.getLsbD_setWidth, decide_eq_true hi, Bool.true_and]

theorem lowBits_succ (n : ℕ) (x : BitVec w) :
    lowBits (n + 1) x = lowBits n x ^^^ if x.getLsbD n then BitVec.twoPow w n else 0#w := by
  apply BitVec.eq_of_getLsbD_eq
  intro i hi
  rw [BitVec.getLsbD_xor, getLsbD_lowBits _ _ hi, getLsbD_lowBits _ _ hi]
  rcases lt_trichotomy i n with h | rfl | h
  · have hne : n ≠ i := by omega
    split <;> simp [h, Nat.lt_succ_of_lt h, hne]
  · cases hx : x.getLsbD i <;> simp [hi]
  · have hne : n ≠ i := by omega
    have h₁ : ¬ i < n := by omega
    have h₂ : ¬ i < n + 1 := by omega
    split <;> simp [h₁, h₂, hne]

/-- A linear map that fixes every single bit fixes every word. -/
theorem Linear.eq_self {f : BitVec w → BitVec w} (h : Linear f)
    (hbasis : ∀ i < w, f (BitVec.twoPow w i) = BitVec.twoPow w i) (x : BitVec w) : f x = x := by
  have hlow : ∀ n ≤ w, f (lowBits n x) = lowBits n x := by
    intro n
    induction n with
    | zero =>
        intro _
        have hzero : lowBits 0 x = 0#w := by
          apply BitVec.eq_of_getLsbD_eq
          intro i hi
          simp [getLsbD_lowBits _ _ hi]
        rw [hzero, h.zero]
    | succ n ih =>
        intro hn
        rw [lowBits_succ, h, ih (by omega)]
        split
        · rw [hbasis n (by omega)]
        · rw [h.zero]
  have hall : lowBits w x = x := by
    rw [lowBits, BitVec.setWidth_eq, BitVec.setWidth_eq]
  rw [← hall]
  exact hlow w le_rfl

/-! ## Rows -/

theorem rotateLeft_and (x m : BitVec w) (r : ℕ) :
    (x &&& m).rotateLeft r = x.rotateLeft r &&& m.rotateLeft r := by
  apply BitVec.eq_of_getLsbD_eq
  intro i hi
  simp only [BitVec.getLsbD_and, BitVec.getLsbD_rotateLeft, hi, decide_true, Bool.true_and]
  cases decide (i < r % w) <;> rfl

theorem rotateRight_and (x m : BitVec w) (r : ℕ) :
    (x &&& m).rotateRight r = x.rotateRight r &&& m.rotateRight r := by
  apply BitVec.eq_of_getLsbD_eq
  intro i hi
  simp only [BitVec.getLsbD_and, BitVec.getLsbD_rotateRight, hi, decide_true, Bool.true_and]
  cases decide (i < w - r % w) <;> rfl

/-- A row whose mask is a period of the rotation is rotated back in its place. -/
theorem rotateRight_row {x y m : BitVec w} {r : ℕ} (hm : m.rotateRight r = m)
    (h : y &&& m = x.rotateLeft r &&& m) : y.rotateRight r &&& m = x &&& m := by
  have hrow := congrArg (fun z ↦ z.rotateRight r) h
  simpa only [rotateRight_and, hm, ByteWords.rotateRight_rotateLeft] using hrow

theorem rotateLeft_row {x y m : BitVec w} {r : ℕ} (hm : m.rotateLeft r = m)
    (h : y &&& m = x.rotateRight r &&& m) : y.rotateLeft r &&& m = x &&& m := by
  have hrow := congrArg (fun z ↦ z.rotateLeft r) h
  simpa only [rotateLeft_and, hm, ByteWords.rotateLeft_rotateRight] using hrow

end WordLayers
