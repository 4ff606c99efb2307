import PrototypeNet.Lib.ByteWords

/-!
# SipHash

The keyed hash SipHash-c-d of a message of any length, as published: the
message is padded to whole words with its length in the last byte, and each
little-endian word is absorbed by `c` rounds before `d` rounds finish the
state.
-/

namespace SipHash

open ByteWords

/-- Four words of state. -/
structure Vars where
  v0 : BitVec 64
  v1 : BitVec 64
  v2 : BitVec 64
  v3 : BitVec 64
  deriving DecidableEq, Repr

def start (k0 k1 : BitVec 64) : Vars where
  v0 := k0 ^^^ 0x736f6d6570736575
  v1 := k1 ^^^ 0x646f72616e646f6d
  v2 := k0 ^^^ 0x6c7967656e657261
  v3 := k1 ^^^ 0x7465646279746573

/-- `SipRound`, with its two halves side by side. -/
def round (v : Vars) : Vars :=
  let a0 := v.v0 + v.v1
  let a2 := v.v2 + v.v3
  let a1 := v.v1.rotateLeft 13 ^^^ a0
  let a3 := v.v3.rotateLeft 16 ^^^ a2
  let b2 := a2 + a1
  let b0 := a0.rotateLeft 32 + a3
  ⟨b0, a1.rotateLeft 17 ^^^ b2, b2.rotateLeft 32, a3.rotateLeft 21 ^^^ b0⟩

def compress (c : ℕ) (v : Vars) (m : BitVec 64) : Vars :=
  let w := round^[c] { v with v3 := v.v3 ^^^ m }
  { w with v0 := w.v0 ^^^ m }

def finish (d : ℕ) (v : Vars) : BitVec 64 :=
  let w := round^[d] { v with v2 := v.v2 ^^^ 0xff }
  w.v0 ^^^ w.v1 ^^^ w.v2 ^^^ w.v3

/-- Zeros up to the last byte of a word, which holds the length. -/
def pad (message : List Byte) : List Byte :=
  message ++ List.replicate (7 - message.length % 8) 0 ++ [BitVec.ofNat 8 message.length]

def words : List Byte → List (BitVec 64)
  | b₀ :: b₁ :: b₂ :: b₃ :: b₄ :: b₅ :: b₆ :: b₇ :: bytes =>
      leWord64 b₀ b₁ b₂ b₃ b₄ b₅ b₆ b₇ :: words bytes
  | _ => []

def sipHash (c d : ℕ) (k0 k1 : BitVec 64) (message : List Byte) : BitVec 64 :=
  finish d ((words (pad message)).foldl (compress c) (start k0 k1))

/-- The test vector of the publication. -/
example : sipHash 2 4 0x0706050403020100 0x0f0e0d0c0b0a0908
    [0, 1, 2, 3, 4, 5, 6, 7, 8, 9, 10, 11, 12, 13, 14] = 0xa129ca6149be45e5 := by
  decide +kernel

end SipHash
