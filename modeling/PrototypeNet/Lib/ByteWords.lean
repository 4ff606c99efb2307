import Mathlib

/-!
# Machine words and their big-endian byte strings

A word of `8 * n` bits and a vector of `n` bytes carry the same data, most
significant byte first.  The two conversions are inverse to each other.  The
module also records the bit facts a keyed word codec rests on: rotations by
the same amount cancel, fields placed side by side add up, and a mask of low
ones is a remainder.
-/

namespace ByteWords

abbrev Byte := BitVec 8

/-- The number a list of bytes denotes, most significant byte first. -/
def wordValue (l : List Byte) : ℕ :=
  l.foldl (fun acc b ↦ 256 * acc + b.toNat) 0

/-- The `n` least significant base-256 digits of `x`, most significant first. -/
def wordDigits : ℕ → ℕ → List Byte
  | 0, _ => []
  | n + 1, x => wordDigits n (x / 256) ++ [BitVec.ofNat 8 x]

@[simp] theorem wordValue_nil : wordValue [] = 0 := rfl

@[simp] theorem wordValue_concat (l : List Byte) (b : Byte) :
    wordValue (l ++ [b]) = 256 * wordValue l + b.toNat := by
  simp [wordValue]

theorem wordValue_append (l m : List Byte) :
    wordValue (l ++ m) = wordValue l * 256 ^ m.length + wordValue m := by
  induction m using List.reverseRecOn with
  | nil => simp
  | append_singleton m b ih =>
      rw [← List.append_assoc, wordValue_concat, ih, wordValue_concat, List.length_append,
        List.length_singleton, pow_succ]
      ring

@[simp] theorem length_wordDigits (n x : ℕ) : (wordDigits n x).length = n := by
  induction n generalizing x with
  | zero => rfl
  | succ n ih => simp [wordDigits, ih]

theorem wordValue_lt (l : List Byte) : wordValue l < 256 ^ l.length := by
  induction l using List.reverseRecOn with
  | nil => simp
  | append_singleton l b ih =>
      have hb : b.toNat < 256 := b.isLt
      rw [wordValue_concat, List.length_append, List.length_singleton, pow_succ]
      omega

theorem wordValue_wordDigits (n x : ℕ) : wordValue (wordDigits n x) = x % 256 ^ n := by
  induction n generalizing x with
  | zero => simp [wordDigits, Nat.mod_one]
  | succ n ih =>
      have hlast : (BitVec.ofNat 8 x).toNat = x % 256 := BitVec.toNat_ofNat x 8
      rw [wordDigits, wordValue_concat, ih, hlast, pow_succ', Nat.mod_mul]
      omega

theorem wordDigits_wordValue (l : List Byte) : wordDigits l.length (wordValue l) = l := by
  induction l using List.reverseRecOn with
  | nil => rfl
  | append_singleton l b ih =>
      have hb : b.toNat < 256 := b.isLt
      have hdiv : (256 * wordValue l + b.toNat) / 256 = wordValue l := by omega
      have hlast : BitVec.ofNat 8 (256 * wordValue l + b.toNat) = b := by
        apply BitVec.eq_of_toNat_eq
        rw [BitVec.toNat_ofNat]
        omega
      rw [List.length_append, List.length_singleton, wordDigits, wordValue_concat, hdiv, ih, hlast]

section Conversions

variable {n w : ℕ}

/-- The `w`-bit word whose bytes are `v`, first byte most significant. -/
def fromBeBytes (w : ℕ) (v : Vector Byte n) : BitVec w :=
  BitVec.ofNat w (wordValue v.toList)

/-- The `n` low bytes of a word, most significant first. -/
def toBeBytes (n : ℕ) (x : BitVec w) : Vector Byte n :=
  ⟨⟨wordDigits n x.toNat⟩, length_wordDigits n x.toNat⟩

@[simp] theorem toList_toBeBytes (x : BitVec w) :
    (toBeBytes n x).toList = wordDigits n x.toNat := rfl

theorem two_pow_eight_mul (n : ℕ) : 2 ^ (8 * n) = 256 ^ n := by
  rw [pow_mul]
  norm_num

@[simp] theorem fromBeBytes_toBeBytes (h : w = 8 * n) (x : BitVec w) :
    fromBeBytes w (toBeBytes n x) = x := by
  apply BitVec.eq_of_toNat_eq
  have hx : x.toNat < 256 ^ n := by
    rw [← two_pow_eight_mul, ← h]
    exact x.isLt
  rw [fromBeBytes, toList_toBeBytes, wordValue_wordDigits, BitVec.toNat_ofNat, Nat.mod_eq_of_lt hx,
    Nat.mod_eq_of_lt x.isLt]

@[simp] theorem toBeBytes_fromBeBytes (h : w = 8 * n) (v : Vector Byte n) :
    toBeBytes n (fromBeBytes w v) = v := by
  have hlen : v.toList.length = n := Vector.length_toList
  have hv : wordValue v.toList < 2 ^ w := by
    have hh := wordValue_lt v.toList
    rwa [hlen, ← two_pow_eight_mul, ← h] at hh
  have hl : (toBeBytes n (fromBeBytes w v)).toList = v.toList := by
    rw [toList_toBeBytes, fromBeBytes, BitVec.toNat_ofNat, Nat.mod_eq_of_lt hv]
    have hh := wordDigits_wordValue v.toList
    rwa [hlen] at hh
  exact Vector.toList_inj.mp hl

theorem toBeBytes_injective (h : w = 8 * n) {x y : BitVec w}
    (hxy : toBeBytes n x = toBeBytes n y) : x = y := by
  rw [← fromBeBytes_toBeBytes h x, hxy, fromBeBytes_toBeBytes h y]

/-! A vector is the literal of its own entries. -/

theorem vector1_eta {α : Type*} [Inhabited α] (v : Vector α 1) : #v[v[0]!] = v := by
  apply Vector.ext
  intro i hi
  interval_cases i
  rfl

theorem vector2_eta {α : Type*} [Inhabited α] (v : Vector α 2) : #v[v[0]!, v[1]!] = v := by
  apply Vector.ext
  intro i hi
  interval_cases i <;> rfl

theorem vector4_eta {α : Type*} [Inhabited α] (v : Vector α 4) :
    #v[v[0]!, v[1]!, v[2]!, v[3]!] = v := by
  apply Vector.ext
  intro i hi
  interval_cases i <;> rfl

theorem vector8_eta {α : Type*} [Inhabited α] (v : Vector α 8) :
    #v[v[0]!, v[1]!, v[2]!, v[3]!, v[4]!, v[5]!, v[6]!, v[7]!] = v := by
  apply Vector.ext
  intro i hi
  interval_cases i <;> rfl

/-! Words given byte by byte, as a program that indexes a buffer reads them. -/

def beWord32 (b₀ b₁ b₂ b₃ : Byte) : BitVec 32 :=
  fromBeBytes 32 #v[b₀, b₁, b₂, b₃]

def beWord64 (b₀ b₁ b₂ b₃ b₄ b₅ b₆ b₇ : Byte) : BitVec 64 :=
  fromBeBytes 64 #v[b₀, b₁, b₂, b₃, b₄, b₅, b₆, b₇]

/-- The least significant byte first. -/
def leWord64 (b₀ b₁ b₂ b₃ b₄ b₅ b₆ b₇ : Byte) : BitVec 64 :=
  beWord64 b₇ b₆ b₅ b₄ b₃ b₂ b₁ b₀

theorem beWord32_toBeBytes (x : BitVec 32) :
    let v : Vector Byte 4 := toBeBytes 4 x
    beWord32 v[0]! v[1]! v[2]! v[3]! = x := by
  intro v
  rw [beWord32, vector4_eta, fromBeBytes_toBeBytes (by norm_num)]

theorem beWord64_toBeBytes (x : BitVec 64) :
    let v : Vector Byte 8 := toBeBytes 8 x
    beWord64 v[0]! v[1]! v[2]! v[3]! v[4]! v[5]! v[6]! v[7]! = x := by
  intro v
  rw [beWord64, vector8_eta, fromBeBytes_toBeBytes (by norm_num)]

end Conversions

/-! ## Rotations -/

section Rotation

variable {w : ℕ}

theorem rotateRight_rotateLeft (x : BitVec w) (r : ℕ) :
    (x.rotateLeft r).rotateRight r = x := by
  apply BitVec.eq_of_getLsbD_eq
  intro i hi
  have hr : r % w < w := Nat.mod_lt _ (by omega)
  rw [BitVec.getLsbD_rotateRight, BitVec.getLsbD_rotateLeft, BitVec.getLsbD_rotateLeft]
  by_cases hlow : i < w - r % w
  · have h₁ : ¬ r % w + i < r % w := by omega
    have h₂ : r % w + i < w := by omega
    simp [hlow, h₂]
  · have h₁ : i - (w - r % w) < r % w := by omega
    have h₂ : w - r % w + (i - (w - r % w)) = i := by omega
    simp [hlow, h₁, h₂, hi]

theorem rotateLeft_rotateRight (x : BitVec w) (r : ℕ) :
    (x.rotateRight r).rotateLeft r = x := by
  apply BitVec.eq_of_getLsbD_eq
  intro i hi
  have hr : r % w < w := Nat.mod_lt _ (by omega)
  rw [BitVec.getLsbD_rotateLeft, BitVec.getLsbD_rotateRight, BitVec.getLsbD_rotateRight]
  by_cases hlow : i < r % w
  · have h₁ : ¬ w - r % w + i < w - r % w := by omega
    have h₂ : w - r % w + i < w := by omega
    simp [hlow, h₂]
  · have h₁ : i - r % w < w - r % w := by omega
    have h₂ : r % w + (i - r % w) = i := by omega
    simp [hlow, h₁, h₂, hi]

/-- A rotation followed by a mask is undone by removing the mask and rotating
back. -/
theorem rotateLeft_xor_eq_iff (p e k : BitVec w) (r : ℕ) :
    p.rotateLeft r ^^^ k = e ↔ p = (e ^^^ k).rotateRight r := by
  constructor
  · rintro rfl
    rw [BitVec.xor_assoc, BitVec.xor_self, BitVec.xor_zero, rotateRight_rotateLeft]
  · rintro rfl
    rw [rotateLeft_rotateRight, BitVec.xor_assoc, BitVec.xor_self, BitVec.xor_zero]

end Rotation

/-! ## Fields of a word -/

section Fields

variable {w : ℕ}

theorem toNat_shiftLeft_or (hi lo : BitVec w) (k : ℕ) (hlo : lo.toNat < 2 ^ k)
    (hhi : hi.toNat * 2 ^ k < 2 ^ w) :
    (hi <<< k ||| lo).toNat = hi.toNat * 2 ^ k + lo.toNat := by
  have hshift : (hi <<< k).toNat = hi.toNat <<< k := by
    rw [BitVec.toNat_shiftLeft, Nat.shiftLeft_eq, Nat.mod_eq_of_lt hhi]
  rw [BitVec.toNat_or, hshift, ← Nat.shiftLeft_add_eq_or_of_lt hlo, Nat.shiftLeft_eq]

theorem toNat_and_ones (x m : BitVec w) (k : ℕ) (hm : m.toNat = 2 ^ k - 1) :
    (x &&& m).toNat = x.toNat % 2 ^ k := by
  rw [BitVec.toNat_and, hm, Nat.and_two_pow_sub_one_eq_mod]

end Fields

end ByteWords
