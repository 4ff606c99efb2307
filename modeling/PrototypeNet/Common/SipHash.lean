import PrototypeNet.Lib.SipHash

/-!
# SipHash for seventeen bytes

The program for the kernel hashes a message of fixed length with all loops
unrolled.  It computes what the general hash computes.
-/

namespace PrototypeNet

open ByteWords

/-- `sip_round`, one assignment of the source after the other. -/
def sipRound (v : SipHash.Vars) : SipHash.Vars :=
  let v := { v with v0 := v.v0 + v.v1 }
  let v := { v with v1 := v.v1.rotateLeft 13 }
  let v := { v with v1 := v.v1 ^^^ v.v0 }
  let v := { v with v0 := v.v0.rotateLeft 32 }
  let v := { v with v2 := v.v2 + v.v3 }
  let v := { v with v3 := v.v3.rotateLeft 16 }
  let v := { v with v3 := v.v3 ^^^ v.v2 }
  let v := { v with v0 := v.v0 + v.v3 }
  let v := { v with v3 := v.v3.rotateLeft 21 }
  let v := { v with v3 := v.v3 ^^^ v.v0 }
  let v := { v with v2 := v.v2 + v.v1 }
  let v := { v with v1 := v.v1.rotateLeft 17 }
  let v := { v with v1 := v.v1 ^^^ v.v2 }
  { v with v2 := v.v2.rotateLeft 32 }

def siphash2417 (key : Vector Byte 16) (data : Vector Byte 17) : BitVec 64 :=
  let k0 := leWord64 key[0]! key[1]! key[2]! key[3]! key[4]! key[5]! key[6]! key[7]!
  let k1 := leWord64 key[8]! key[9]! key[10]! key[11]! key[12]! key[13]! key[14]! key[15]!
  let v : SipHash.Vars :=
    ⟨0x736f6d6570736575 ^^^ k0, 0x646f72616e646f6d ^^^ k1, 0x6c7967656e657261 ^^^ k0,
      0x7465646279746573 ^^^ k1⟩
  let m0 := leWord64 data[0]! data[1]! data[2]! data[3]! data[4]! data[5]! data[6]! data[7]!
  let m1 := leWord64 data[8]! data[9]! data[10]! data[11]! data[12]! data[13]! data[14]! data[15]!
  let b := 17#64 <<< 56 ||| data[16]!.setWidth 64
  let v := { v with v3 := v.v3 ^^^ m0 }
  let v := sipRound v
  let v := sipRound v
  let v := { v with v0 := v.v0 ^^^ m0 }
  let v := { v with v3 := v.v3 ^^^ m1 }
  let v := sipRound v
  let v := sipRound v
  let v := { v with v0 := v.v0 ^^^ m1 }
  let v := { v with v3 := v.v3 ^^^ b }
  let v := sipRound v
  let v := sipRound v
  let v := { v with v0 := v.v0 ^^^ b }
  let v := { v with v2 := v.v2 ^^^ 0xff }
  let v := sipRound v
  let v := sipRound v
  let v := sipRound v
  let v := sipRound v
  v.v0 ^^^ v.v1 ^^^ v.v2 ^^^ v.v3

/-- The hash of the `siphasher` crate under a key of two little-endian words. -/
def siphash24 (key : Vector Byte 16) (data : List Byte) : BitVec 64 :=
  SipHash.sipHash 2 4
    (leWord64 key[0]! key[1]! key[2]! key[3]! key[4]! key[5]! key[6]! key[7]!)
    (leWord64 key[8]! key[9]! key[10]! key[11]! key[12]! key[13]! key[14]! key[15]!) data

theorem sipRound_eq_round (v : SipHash.Vars) : sipRound v = SipHash.round v := rfl

/-- Seventeen bytes leave one for the last word, next to the length. -/
theorem leWord64_last (b : Byte) : leWord64 b 0 0 0 0 0 0 17 = 17#64 <<< 56 ||| b.setWidth 64 := by
  revert b
  decide +kernel

theorem toList_vector17 (data : Vector Byte 17) :
    data.toList = [data[0]!, data[1]!, data[2]!, data[3]!, data[4]!, data[5]!, data[6]!, data[7]!,
      data[8]!, data[9]!, data[10]!, data[11]!, data[12]!, data[13]!, data[14]!, data[15]!,
      data[16]!] := by
  apply List.ext_getElem
  · simp
  · intro i hi _
    have hi' : i < 17 := by simpa using hi
    interval_cases i <;> rfl

theorem words_pad_seventeen (data : Vector Byte 17) :
    SipHash.words (SipHash.pad data.toList) =
      [leWord64 data[0]! data[1]! data[2]! data[3]! data[4]! data[5]! data[6]! data[7]!,
        leWord64 data[8]! data[9]! data[10]! data[11]! data[12]! data[13]! data[14]! data[15]!,
        17#64 <<< 56 ||| data[16]!.setWidth 64] := by
  rw [← leWord64_last, toList_vector17]
  simp [SipHash.pad, SipHash.words]

theorem start_eq (k0 k1 : BitVec 64) :
    SipHash.start k0 k1 = ⟨0x736f6d6570736575 ^^^ k0, 0x646f72616e646f6d ^^^ k1,
      0x6c7967656e657261 ^^^ k0, 0x7465646279746573 ^^^ k1⟩ := by
  rw [SipHash.start, BitVec.xor_comm k0, BitVec.xor_comm k1, BitVec.xor_comm k0,
    BitVec.xor_comm k1]

theorem siphash_fixed_agrees (key : Vector Byte 16) (data : Vector Byte 17) :
    siphash2417 key data = siphash24 key data.toList := by
  rw [siphash24, SipHash.sipHash, words_pad_seventeen, start_eq]
  simp only [siphash2417, SipHash.compress, SipHash.finish, List.foldl_cons, List.foldl_nil,
    Function.iterate_succ, Function.iterate_zero, Function.comp_apply, id_eq, sipRound_eq_round]

end PrototypeNet
