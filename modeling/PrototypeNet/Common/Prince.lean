import PrototypeNet.Lib.WordLayers
import PrototypeNet.Lib.ByteWords
import PrototypeNet.Common.ProxySource

/-!
# The PRINCE block cipher

The cipher as the source spells it out, over tables of nibbles, columns and
masks.  It has no decryption core: the core under `k1 ^ ALPHA` is the inverse
of the core under `k1`, since the inverse rounds undo the forward rounds in
the opposite order and the round constants of a pair differ by `ALPHA`.
-/

namespace PrototypeNet

namespace Prince

open WordLayers

/-! ## Tables -/

def rc : List (BitVec 64) :=
  [0x0000000000000000, 0x13198a2e03707344, 0xa4093822299f31d0, 0x082efa98ec4e6c89,
    0x452821e638d01377, 0xbe5466cf34e90c6c, 0x7ef84f78fd955cb1, 0x85840851f1ac43aa,
    0xc882d32f25323c54, 0x64a51195e0e3610d, 0xd3b5a399ca0c2399, 0xc0ac29b7c97c50dd]

def alpha : BitVec 64 := 0xc0ac29b7c97c50dd

def sbox : List (BitVec 8) :=
  [0xB, 0xF, 0x3, 0x2, 0xA, 0xC, 0x9, 0x1, 0x6, 0x7, 0x8, 0x0, 0xE, 0x5, 0xD, 0x4]

def sboxInv : List (BitVec 8) :=
  [0xB, 0x7, 0x3, 0x2, 0xF, 0xD, 0x8, 0x9, 0xA, 0x6, 0x4, 0x0, 0x5, 0xE, 0xC, 0x1]

def mHat0 : List (BitVec 16) :=
  [0x0111, 0x2220, 0x4404, 0x8088, 0x1011, 0x0222, 0x4440, 0x8808, 0x1101, 0x2022, 0x0444, 0x8880,
    0x1110, 0x2202, 0x4044, 0x0888]

def mHat1 : List (BitVec 16) :=
  [0x1110, 0x2202, 0x4044, 0x0888, 0x0111, 0x2220, 0x4404, 0x8088, 0x1011, 0x0222, 0x4440, 0x8808,
    0x1101, 0x2022, 0x0444, 0x8880]

def rowMask : List (BitVec 64) :=
  [0xF000F000F000F000, 0x0F000F000F000F00, 0x00F000F000F000F0, 0x000F000F000F000F]

/-! ## Layers -/

/-- The nibble at bit `4 * i`, substituted, in its place. -/
def substituted (table : List (BitVec 8)) (x : BitVec 64) (i : ℕ) : BitVec 64 :=
  (table[((x >>> (4 * i)) &&& 0xF).toNat]!).setWidth 64 <<< (4 * i)

/-- All sixteen nibbles through one table. -/
def substitute (table : List (BitVec 8)) (x : BitVec 64) : BitVec 64 :=
  (List.range 16).foldl (fun out i ↦ out ||| substituted table x i) 0

def sboxLayer (x : BitVec 64) : BitVec 64 :=
  substitute sbox x

def sboxInvLayer (x : BitVec 64) : BitVec 64 :=
  substitute sboxInv x

/-- A column where the bit of `val` is set; the negated bit is the mask. -/
def column (val : BitVec 16) (cols : List (BitVec 16)) (i : ℕ) : BitVec 16 :=
  cols[i]! &&& -((val >>> i) &&& 1)

def gf2MatMul (val : BitVec 16) (cols : List (BitVec 16)) : BitVec 16 :=
  (List.range 16).foldl (fun out i ↦ out ^^^ column val cols i) 0

def mPrime (x : BitVec 64) : BitVec 64 :=
  let c0 := (x &&& 0xFFFF).setWidth 16
  let c1 := ((x >>> 16) &&& 0xFFFF).setWidth 16
  let c2 := ((x >>> 32) &&& 0xFFFF).setWidth 16
  let c3 := ((x >>> 48) &&& 0xFFFF).setWidth 16
  let r0 := (gf2MatMul c0 mHat0).setWidth 64
  let r1 := (gf2MatMul c1 mHat1).setWidth 64
  let r2 := (gf2MatMul c2 mHat1).setWidth 64
  let r3 := (gf2MatMul c3 mHat0).setWidth 64
  r0 ||| r1 <<< 16 ||| r2 <<< 32 ||| r3 <<< 48

def shiftRows (x : BitVec 64) : BitVec 64 :=
  let row0 := x &&& rowMask[0]!
  let row1 := x &&& rowMask[1]!
  let row2 := x &&& rowMask[2]!
  let row3 := x &&& rowMask[3]!
  row0 ||| row1.rotateLeft 16 ||| row2.rotateRight 32 ||| row3.rotateRight 16

def shiftRowsInv (x : BitVec 64) : BitVec 64 :=
  let row0 := x &&& rowMask[0]!
  let row1 := x &&& rowMask[1]!
  let row2 := x &&& rowMask[2]!
  let row3 := x &&& rowMask[3]!
  row0 ||| row1.rotateRight 16 ||| row2.rotateLeft 32 ||| row3.rotateLeft 16

def mLayer (x : BitVec 64) : BitVec 64 :=
  shiftRows (mPrime x)

def mLayerInv (x : BitVec 64) : BitVec 64 :=
  mPrime (shiftRowsInv x)

/-! ## The cipher -/

def forwardRound (k1 : BitVec 64) (i : ℕ) (s : BitVec 64) : BitVec 64 :=
  mLayer (sboxLayer s) ^^^ (rc[i]! ^^^ k1)

def middle (s : BitVec 64) : BitVec 64 :=
  sboxInvLayer (mPrime (sboxLayer s))

def inverseRound (k1 : BitVec 64) (i : ℕ) (s : BitVec 64) : BitVec 64 :=
  sboxInvLayer (mLayerInv (s ^^^ (k1 ^^^ rc[i]!)))

def princeCoreEncrypt (block k1 : BitVec 64) : BitVec 64 :=
  let s := block ^^^ (k1 ^^^ rc[0]!)
  let s := forwardRound k1 1 s
  let s := forwardRound k1 2 s
  let s := forwardRound k1 3 s
  let s := forwardRound k1 4 s
  let s := forwardRound k1 5 s
  let s := middle s
  let s := inverseRound k1 6 s
  let s := inverseRound k1 7 s
  let s := inverseRound k1 8 s
  let s := inverseRound k1 9 s
  let s := inverseRound k1 10 s
  s ^^^ (k1 ^^^ rc[11]!)

def princeEncrypt (block : BitVec 64) (key : Vector ByteWords.Byte 16) : BitVec 64 :=
  let k0 := keyWordHigh key
  let k1 := keyWordLow key
  let k0Prime := k0.rotateRight 1 ^^^ (k0 >>> 63)
  let input := block ^^^ k0
  let coreOut := princeCoreEncrypt input k1
  coreOut ^^^ k0Prime

def princeDecrypt (block : BitVec 64) (key : Vector ByteWords.Byte 16) : BitVec 64 :=
  let k0 := keyWordHigh key
  let k1 := keyWordLow key
  let k0Prime := k0.rotateRight 1 ^^^ (k0 >>> 63)
  let k1Dec := k1 ^^^ alpha
  let input := block ^^^ k0Prime
  let coreOut := princeCoreEncrypt input k1Dec
  coreOut ^^^ k0

/-! ## Substitution -/

/-- A table of nibbles loses nothing when its entries are cut to four bits. -/
def NibbleTable (table : List (BitVec 8)) : Prop :=
  ∀ c : BitVec 4, ((table[c.toNat]!).setWidth 4).setWidth 8 = table[c.toNat]!

theorem toNat_nibble (x : BitVec 64) (i : ℕ) :
    ((x >>> (4 * i)) &&& 0xF).toNat = (chunk 4 i x).toNat := by
  rw [ByteWords.toNat_and_ones _ _ 4 (by decide), chunk, BitVec.toNat_setWidth]

theorem substitute_eq_layer {table : List (BitVec 8)} (h : NibbleTable table) (x : BitVec 64) :
    substitute table x = layer 16 (fun _ c ↦ (table[c.toNat]!).setWidth 4) x := by
  rw [layer, ← foldl_or_eq_fromChunks, substitute]
  congr 1
  funext out i
  have hcut : (table[(chunk 4 i x).toNat]!).setWidth 64 =
      ((table[(chunk 4 i x).toNat]!).setWidth 4).setWidth 64 := by
    apply BitVec.eq_of_toNat_eq
    have hsmall := congrArg BitVec.toNat (h (chunk 4 i x))
    simp only [BitVec.toNat_setWidth] at hsmall ⊢
    omega
  rw [substituted, toNat_nibble, hcut]

theorem nibbleTable_sbox : NibbleTable sbox := by
  unfold NibbleTable
  decide

theorem nibbleTable_sboxInv : NibbleTable sboxInv := by
  unfold NibbleTable
  decide

theorem sboxInvLayer_sboxLayer (x : BitVec 64) : sboxInvLayer (sboxLayer x) = x := by
  rw [sboxInvLayer, sboxLayer, substitute_eq_layer nibbleTable_sboxInv,
    substitute_eq_layer nibbleTable_sbox]
  exact layer_layer (by norm_num) (fun _ _ ↦ by decide) x

theorem sboxLayer_sboxInvLayer (x : BitVec 64) : sboxLayer (sboxInvLayer x) = x := by
  rw [sboxInvLayer, sboxLayer, substitute_eq_layer nibbleTable_sboxInv,
    substitute_eq_layer nibbleTable_sbox]
  exact layer_layer (by norm_num) (fun _ _ ↦ by decide) x

/-! ## The linear layer -/

theorem column_eq (val : BitVec 16) (cols : List (BitVec 16)) (i : ℕ) :
    column val cols i = if val.getLsbD i then cols[i]! else 0#16 := by
  have hbit : (val >>> i) &&& 1 = if val.getLsbD i then 1#16 else 0#16 := by
    rw [show (1 : BitVec 16) = 1#16 from rfl, BitVec.and_one_eq_setWidth_ofBool_getLsbD,
      BitVec.getLsbD_ushiftRight, Nat.add_zero]
    cases val.getLsbD i <;> rfl
  rw [column, hbit]
  split
  · rw [show -1#16 = BitVec.allOnes 16 by decide, BitVec.and_allOnes]
  · rw [BitVec.neg_zero, BitVec.and_zero]

theorem column_xor (x y : BitVec 16) (cols : List (BitVec 16)) (i : ℕ) :
    column (x ^^^ y) cols i = column x cols i ^^^ column y cols i := by
  rw [column_eq, column_eq, column_eq, BitVec.getLsbD_xor]
  cases x.getLsbD i <;> cases y.getLsbD i <;> simp

theorem linear_gf2MatMul (cols : List (BitVec 16)) : Linear fun val ↦ gf2MatMul val cols := by
  intro x y
  have hprefix : ∀ n, (List.range n).foldl (fun out i ↦ out ^^^ column (x ^^^ y) cols i) 0 =
      (List.range n).foldl (fun out i ↦ out ^^^ column x cols i) 0 ^^^
        (List.range n).foldl (fun out i ↦ out ^^^ column y cols i) 0 := by
    intro n
    induction n with
    | zero => simp
    | succ n ih =>
        simp only [List.range_succ, List.foldl_append, List.foldl_cons, List.foldl_nil]
        rw [ih, column_xor]
        ac_rfl
  exact hprefix 16

/-- The matrix of the chunk at bit `16 * i`. -/
def mHat (i : ℕ) : List (BitVec 16) :=
  if i = 1 ∨ i = 2 then mHat1 else mHat0

theorem mHat_involution (i : ℕ) (c : BitVec 16) :
    gf2MatMul (gf2MatMul c (mHat i)) (mHat i) = c := by
  have hlinear := (linear_gf2MatMul (mHat i)).comp (linear_gf2MatMul (mHat i))
  refine hlinear.eq_self ?_ c
  unfold mHat
  split
  · decide +kernel
  · decide +kernel

theorem setWidth_and_ones (y : BitVec 64) : (y &&& 0xFFFF).setWidth 16 = y.setWidth 16 := by
  apply BitVec.eq_of_toNat_eq
  rw [BitVec.toNat_setWidth, ByteWords.toNat_and_ones _ _ 16 (by decide), Nat.mod_mod,
    BitVec.toNat_setWidth]

theorem mPrime_eq_layer (x : BitVec 64) :
    mPrime x = layer 4 (fun i c ↦ gf2MatMul c (mHat i)) x := by
  simp only [mPrime, layer, fromChunks, chunk, mHat, setWidth_and_ones]
  simp

theorem mPrime_mPrime (x : BitVec 64) : mPrime (mPrime x) = x := by
  rw [mPrime_eq_layer, mPrime_eq_layer]
  exact layer_layer (by norm_num) (fun i _ ↦ mHat_involution i) x

/-! ## Rows -/

/-- The four rows, each taken from a word of its own. -/
def rows (a b c d : BitVec 64) : BitVec 64 :=
  a &&& rowMask[0]! ||| (b &&& rowMask[1]! ||| (c &&& rowMask[2]! ||| d &&& rowMask[3]!))

theorem shiftRows_eq_rows (x : BitVec 64) :
    shiftRows x = rows x (x.rotateLeft 16) (x.rotateRight 32) (x.rotateRight 16) := by
  rw [shiftRows, rows, rotateLeft_and, rotateRight_and, rotateRight_and,
    show (rowMask[1]!).rotateLeft 16 = rowMask[1]! by decide,
    show (rowMask[2]!).rotateRight 32 = rowMask[2]! by decide,
    show (rowMask[3]!).rotateRight 16 = rowMask[3]! by decide, BitVec.or_assoc, BitVec.or_assoc]

theorem shiftRowsInv_eq_rows (x : BitVec 64) :
    shiftRowsInv x = rows x (x.rotateRight 16) (x.rotateLeft 32) (x.rotateLeft 16) := by
  rw [shiftRowsInv, rows, rotateRight_and, rotateLeft_and, rotateLeft_and,
    show (rowMask[1]!).rotateRight 16 = rowMask[1]! by decide,
    show (rowMask[2]!).rotateLeft 32 = rowMask[2]! by decide,
    show (rowMask[3]!).rotateLeft 16 = rowMask[3]! by decide, BitVec.or_assoc, BitVec.or_assoc]

theorem rows_and_mask (a b c d m : BitVec 64) :
    rows a b c d &&& m = a &&& (rowMask[0]! &&& m) ||| (b &&& (rowMask[1]! &&& m) |||
      (c &&& (rowMask[2]! &&& m) ||| d &&& (rowMask[3]! &&& m))) := by
  simp only [rows, BitVec.and_comm _ m, BitVec.and_or_distrib_left]
  simp only [← BitVec.and_assoc, BitVec.and_comm m]

/-- The masks do not meet, so each row can be read back. -/
theorem rows_and (a b c d : BitVec 64) :
    rows a b c d &&& rowMask[0]! = a &&& rowMask[0]! ∧
      rows a b c d &&& rowMask[1]! = b &&& rowMask[1]! ∧
      rows a b c d &&& rowMask[2]! = c &&& rowMask[2]! ∧
      rows a b c d &&& rowMask[3]! = d &&& rowMask[3]! := by
  have hdisjoint : ∀ i < 4, ∀ j < 4, i ≠ j → rowMask[i]! &&& rowMask[j]! = 0#64 := by decide
  simp (disch := decide) only [rows_and_mask, hdisjoint, BitVec.and_self, BitVec.and_zero,
    BitVec.or_zero, BitVec.zero_or, and_self]

theorem rows_self (x : BitVec 64) : rows x x x x = x := by
  simp only [rows, ← BitVec.and_or_distrib_left]
  rw [show rowMask[0]! ||| (rowMask[1]! ||| (rowMask[2]! ||| rowMask[3]!)) = BitVec.allOnes 64
    by decide, BitVec.and_allOnes]

theorem shiftRowsInv_shiftRows (x : BitVec 64) : shiftRowsInv (shiftRows x) = x := by
  obtain ⟨y, hy⟩ : ∃ y, y = shiftRows x := ⟨_, rfl⟩
  obtain ⟨h0, h1, h2, h3⟩ := rows_and x (x.rotateLeft 16) (x.rotateRight 32) (x.rotateRight 16)
  rw [← shiftRows_eq_rows, ← hy] at h0 h1 h2 h3
  rw [← hy, shiftRowsInv_eq_rows, rows, h0, rotateRight_row (by decide) h1,
    rotateLeft_row (by decide) h2, rotateLeft_row (by decide) h3]
  exact rows_self x

theorem shiftRows_shiftRowsInv (x : BitVec 64) : shiftRows (shiftRowsInv x) = x := by
  obtain ⟨y, hy⟩ : ∃ y, y = shiftRowsInv x := ⟨_, rfl⟩
  obtain ⟨h0, h1, h2, h3⟩ := rows_and x (x.rotateRight 16) (x.rotateLeft 32) (x.rotateLeft 16)
  rw [← shiftRowsInv_eq_rows, ← hy] at h0 h1 h2 h3
  rw [← hy, shiftRows_eq_rows, rows, h0, rotateLeft_row (by decide) h1,
    rotateRight_row (by decide) h2, rotateRight_row (by decide) h3]
  exact rows_self x

/-! ## Reflection -/

theorem mLayerInv_mLayer (x : BitVec 64) : mLayerInv (mLayer x) = x := by
  rw [mLayerInv, mLayer, shiftRowsInv_shiftRows, mPrime_mPrime]

theorem mLayer_mLayerInv (x : BitVec 64) : mLayer (mLayerInv x) = x := by
  rw [mLayerInv, mLayer, mPrime_mPrime, shiftRows_shiftRowsInv]

theorem middle_middle (s : BitVec 64) : middle (middle s) = s := by
  rw [middle, middle, sboxLayer_sboxInvLayer, mPrime_mPrime, sboxInvLayer_sboxLayer]

/-- Paired round constants differ by `ALPHA`. -/
theorem rc_pair {i j : ℕ} (h : i + j = 11) : rc[j]! = rc[i]! ^^^ alpha := by
  have hall : ∀ i ≤ 11, rc[11 - i]! = rc[i]! ^^^ alpha := by decide
  rw [show j = 11 - i by omega]
  exact hall i (by omega)

theorem roundKey_pair (k1 : BitVec 64) {i j : ℕ} (h : i + j = 11) :
    k1 ^^^ alpha ^^^ rc[j]! = k1 ^^^ rc[i]! := by
  rw [rc_pair h, BitVec.xor_assoc, BitVec.xor_comm rc[i]!, ← BitVec.xor_assoc alpha,
    BitVec.xor_self, BitVec.zero_xor]

theorem xor_xor_cancel (s k : BitVec 64) : s ^^^ k ^^^ k = s := by
  rw [BitVec.xor_assoc, BitVec.xor_self, BitVec.xor_zero]

theorem whitening_cancel (k1 s : BitVec 64) {i j : ℕ} (h : i + j = 11) :
    s ^^^ (k1 ^^^ rc[i]!) ^^^ (k1 ^^^ alpha ^^^ rc[j]!) = s := by
  rw [roundKey_pair k1 h, xor_xor_cancel]

theorem inverseRound_forwardRound (k1 s : BitVec 64) {i j : ℕ} (h : i + j = 11) :
    inverseRound (k1 ^^^ alpha) j (forwardRound k1 i s) = s := by
  rw [inverseRound, forwardRound, BitVec.xor_comm rc[i]!, whitening_cancel k1 _ h,
    mLayerInv_mLayer, sboxInvLayer_sboxLayer]

theorem forwardRound_inverseRound (k1 s : BitVec 64) {i j : ℕ} (h : i + j = 11) :
    forwardRound (k1 ^^^ alpha) j (inverseRound k1 i s) = s := by
  rw [inverseRound, forwardRound, sboxLayer_sboxInvLayer, mLayer_mLayerInv,
    BitVec.xor_comm rc[j]!, whitening_cancel k1 _ h]

/-- The core under the reflected key is the inverse of the core: the rounds
cancel in pairs from the middle outwards, as the second half of the first core
meets the first half of the second. -/
theorem princeCoreEncrypt_reflection (x k1 : BitVec 64) :
    princeCoreEncrypt (princeCoreEncrypt x k1) (k1 ^^^ alpha) = x := by
  simp (disch := norm_num) only [princeCoreEncrypt, whitening_cancel, forwardRound_inverseRound,
    middle_middle, inverseRound_forwardRound]

/-- The same for the core that decryption starts from. -/
theorem princeCoreEncrypt_reflected (x k1 : BitVec 64) :
    princeCoreEncrypt (princeCoreEncrypt x (k1 ^^^ alpha)) k1 = x := by
  have h := princeCoreEncrypt_reflection x (k1 ^^^ alpha)
  rwa [xor_xor_cancel] at h

theorem prince_decrypt_inverts_encrypt (key : Vector ByteWords.Byte 16) (x : BitVec 64) :
    princeDecrypt (princeEncrypt x key) key = x ∧ princeEncrypt (princeDecrypt x key) key = x := by
  simp only [princeEncrypt, princeDecrypt, xor_xor_cancel, princeCoreEncrypt_reflection,
    princeCoreEncrypt_reflected, and_self]

/-- The test vectors of the source. -/
example : princeEncrypt 0 (Vector.replicate 16 0) = 0x818665aa0d02dfda := by decide +kernel

example : princeEncrypt 0x0123456789abcdef
    #v[0, 0, 0, 0, 0, 0, 0, 0, 0xfe, 0xdc, 0xba, 0x98, 0x76, 0x54, 0x32, 0x10] =
      0xae25ad3ca8fa9ccf := by decide +kernel

end Prince

end PrototypeNet
