import PrototypeNet.Lib.ByteWords

/-!
# Base64

The standard alphabet with padding: three bytes are four digits of six bits,
and a last group of one or two bytes is filled up with equals signs.
-/

namespace Base64

open ByteWords

def digit (n : ℕ) : Char :=
  if n < 26 then Char.ofNat (n + 65)
  else if n < 52 then Char.ofNat (n + 71)
  else if n < 62 then Char.ofNat (n - 4)
  else if n = 62 then '+'
  else '/'

def value (c : Char) : Option ℕ :=
  if 'A' ≤ c ∧ c ≤ 'Z' then some (c.toNat - 65)
  else if 'a' ≤ c ∧ c ≤ 'z' then some (c.toNat - 71)
  else if '0' ≤ c ∧ c ≤ '9' then some (c.toNat + 4)
  else if c = '+' then some 62
  else if c = '/' then some 63
  else none

def encode : List Byte → List Char
  | [] => []
  | [a] => [digit (a.toNat / 4), digit (a.toNat % 4 * 16), '=', '=']
  | [a, b] =>
      [digit (a.toNat / 4), digit (a.toNat % 4 * 16 + b.toNat / 16), digit (b.toNat % 16 * 4), '=']
  | a :: b :: c :: rest =>
      digit (a.toNat / 4) :: digit (a.toNat % 4 * 16 + b.toNat / 16) ::
        digit (b.toNat % 16 * 4 + c.toNat / 64) :: digit (c.toNat % 64) :: encode rest

/-- The byte made of the low bits of one digit and the high bits of the next. -/
def join (low high : ℕ) (x y : ℕ) : Byte :=
  BitVec.ofNat 8 (x * low + y / high)

def decode : List Char → Option (List Byte)
  | [] => some []
  | [x, y, '=', '='] => do
      let x ← value x
      let y ← value y
      return [join 4 16 x y]
  | [x, y, z, '='] => do
      let x ← value x
      let y ← value y
      let z ← value z
      return [join 4 16 x y, join 16 4 y z]
  | x :: y :: z :: w :: rest => do
      let x ← value x
      let y ← value y
      let z ← value z
      let w ← value w
      let bytes ← decode rest
      return join 4 16 x y :: join 16 4 y z :: join 64 1 z w :: bytes
  | _ => none

theorem value_digit {n : ℕ} (h : n < 64) : value (digit n) = some n := by
  revert n
  decide +kernel

theorem digit_ne {n : ℕ} (h : n < 64) : digit n ≠ '=' := by
  revert n
  decide +kernel

theorem join_high (a b : Byte) :
    join 4 16 (a.toNat / 4) (a.toNat % 4 * 16 + b.toNat / 16) = a := by
  have ha := a.isLt
  have hb := b.isLt
  apply BitVec.eq_of_toNat_eq
  rw [join, BitVec.toNat_ofNat]
  omega

theorem join_middle (a b c : Byte) :
    join 16 4 (a.toNat % 4 * 16 + b.toNat / 16) (b.toNat % 16 * 4 + c.toNat / 64) = b := by
  have hb := b.isLt
  have hc := c.isLt
  apply BitVec.eq_of_toNat_eq
  rw [join, BitVec.toNat_ofNat]
  omega

theorem join_low (b c : Byte) :
    join 64 1 (b.toNat % 16 * 4 + c.toNat / 64) (c.toNat % 64) = c := by
  have hc := c.isLt
  apply BitVec.eq_of_toNat_eq
  rw [join, BitVec.toNat_ofNat]
  omega

theorem decode_cons {x y z w : ℕ} {rest : List Char} {bytes : List Byte} (hx : x < 64)
    (hy : y < 64) (hz : z < 64) (hw : w < 64) (hrest : decode rest = some bytes) :
    decode (digit x :: digit y :: digit z :: digit w :: rest) =
      some (join 4 16 x y :: join 16 4 y z :: join 64 1 z w :: bytes) := by
  rw [decode]
  · simp [value_digit, hx, hy, hz, hw, hrest]
  · exact fun _ h ↦ absurd h (digit_ne hw)
  · exact fun h ↦ absurd h (digit_ne hw)

theorem decode_encode (bytes : List Byte) : decode (encode bytes) = some bytes := by
  induction bytes using encode.induct with
  | case1 => rfl
  | case2 a =>
      have ha := a.isLt
      have hjoin : join 4 16 (a.toNat / 4) (a.toNat % 4 * 16) = a := join_high a 0
      rw [encode, decode, value_digit (by omega), value_digit (by omega)]
      simp [hjoin]
  | case3 a b =>
      have ha := a.isLt
      have hb := b.isLt
      have hjoin : join 16 4 (a.toNat % 4 * 16 + b.toNat / 16) (b.toNat % 16 * 4) = b :=
        join_middle a b 0
      rw [encode, decode, value_digit (by omega), value_digit (by omega), value_digit (by omega)]
      · simp [hjoin, join_high]
      · exact fun h ↦ absurd h (digit_ne (by omega))
  | case4 a b c rest ih =>
      have ha := a.isLt
      have hb := b.isLt
      have hc := c.isLt
      rw [encode, decode_cons (by omega) (by omega) (by omega) (by omega) ih, join_high,
        join_middle, join_low]

/-- The characters an encoding is made of. -/
def alphabet : List Char :=
  '=' :: (List.range 64).map digit

theorem digit_mem_alphabet {n : ℕ} (h : n < 64) : digit n ∈ alphabet :=
  List.mem_cons_of_mem _ (List.mem_map_of_mem (List.mem_range.mpr h))

theorem mem_alphabet_of_mem_encode {bytes : List Byte} :
    ∀ c ∈ encode bytes, c ∈ alphabet := by
  have hpad : '=' ∈ alphabet := List.mem_cons_self
  induction bytes using encode.induct with
  | case1 => exact fun c hc ↦ absurd hc List.not_mem_nil
  | case2 a =>
      have ha := a.isLt
      intro c hc
      simp only [encode, List.mem_cons, List.not_mem_nil, or_false] at hc
      rcases hc with rfl | rfl | rfl | rfl
      · exact digit_mem_alphabet (by omega)
      · exact digit_mem_alphabet (by omega)
      · exact hpad
      · exact hpad
  | case3 a b =>
      have ha := a.isLt
      have hb := b.isLt
      intro c hc
      simp only [encode, List.mem_cons, List.not_mem_nil, or_false] at hc
      rcases hc with rfl | rfl | rfl | rfl
      · exact digit_mem_alphabet (by omega)
      · exact digit_mem_alphabet (by omega)
      · exact digit_mem_alphabet (by omega)
      · exact hpad
  | case4 a b c rest ih =>
      have ha := a.isLt
      have hb := b.isLt
      have hc := c.isLt
      intro d hd
      simp only [encode, List.mem_cons] at hd
      rcases hd with rfl | rfl | rfl | rfl | hd
      · exact digit_mem_alphabet (by omega)
      · exact digit_mem_alphabet (by omega)
      · exact digit_mem_alphabet (by omega)
      · exact digit_mem_alphabet (by omega)
      · exact ih d hd

end Base64
