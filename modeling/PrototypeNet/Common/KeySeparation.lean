import PrototypeNet.Common.TagHash
import PrototypeNet.Lib.WordLayers

/-!
# What the keys and the tag tell apart

The tag sees the masked word, the flow context and its two key words only as
one xor, and the mask sees its two key words only as one xor.  Different xors
of word and context are told apart by some key, because the hash behind the tag
has no period; equal ones never are.  Keys are told apart by the two xors of
their words: the first shows in the masked word at once, the second in the tag
of some masked word, where the ids leave the hash enough room.  Flow contexts
on their own are always told apart, since the mixer is a bijection.
-/

namespace PrototypeNet

open ByteWords WordMixing

theorem mix64_injective : Function.Injective mix64 :=
  (shiftXor_injective (by norm_num)).comp
    (stir_injective.comp (shiftXor_injective (by norm_num)))

theorem eq_zero_of_period {δ : BitVec 64} (h : ∀ y, tagHash (y ^^^ δ) = tagHash y) :
    δ = 0#64 :=
  eq_zero_of_period_off (m := 0#64) (y := 0#64) (by decide) (by decide) fun f _ ↦ h (0#64 ^^^ f)

/-! ## The tag -/

/-- The two tag key words as `tag32` sees them. -/
def tagKeyWord (key : ProxySrcKey) : BitVec 64 :=
  (keyWordHigh key.siphashKey).rotateLeft 13 ^^^ (keyWordLow key.siphashKey).rotateRight 17

theorem tag32_eq_tagHash (enc64 : BitVec 64) (ctx : ProxySrcCtx) (key : ProxySrcKey) :
    tag32 enc64 ctx key =
      tagHash (enc64 ^^^ packCtx ctx ^^^ tagKeyWord key ^^^ 0xa0761d6478bd642f) := by
  have harg : enc64 ^^^ packCtx ctx ^^^ (keyWordHigh key.siphashKey).rotateLeft 13 ^^^
      (keyWordLow key.siphashKey).rotateRight 17 ^^^ 0xa0761d6478bd642f =
      enc64 ^^^ packCtx ctx ^^^ tagKeyWord key ^^^ 0xa0761d6478bd642f := by
    rw [tagKeyWord]
    ac_rfl
  rw [← harg]
  rfl

/-- A key whose first tag key word is `high` and whose other words are zero. -/
def keyOfTagWord (high : BitVec 64) : ProxySrcKey where
  princeKey := Vector.replicate 16 0
  siphashKey :=
    let bytes : Vector Byte 8 := toBeBytes 8 high
    Vector.ofFn fun i ↦ if i.val < 8 then bytes[i.val]! else 0

theorem tagKeyWord_keyOfTagWord (high : BitVec 64) :
    tagKeyWord (keyOfTagWord high) = high.rotateLeft 13 := by
  have hhigh : keyWordHigh (keyOfTagWord high).siphashKey = high := by
    have hbytes := beWord64_toBeBytes high
    simpa [keyWordHigh, keyOfTagWord] using hbytes
  have hlow : keyWordLow (keyOfTagWord high).siphashKey = 0#64 := by
    simp [keyWordLow, keyOfTagWord]
    decide
  rw [tagKeyWord, hhigh, hlow, show (0#64).rotateRight 17 = 0#64 by decide, BitVec.xor_zero]

/-- Some key tells two pairs of word and context apart exactly if the xors of
word and packed context differ. -/
theorem tag32_separates_iff (enc64 enc64' : BitVec 64) (ctx ctx' : ProxySrcCtx) :
    (∃ key, tag32 enc64 ctx key ≠ tag32 enc64' ctx' key) ↔
      enc64 ^^^ packCtx ctx ≠ enc64' ^^^ packCtx ctx' := by
  constructor
  · rintro ⟨key, hne⟩ heq
    apply hne
    rw [tag32_eq_tagHash, tag32_eq_tagHash, heq]
  · intro hne
    by_contra hnone
    push Not at hnone
    apply hne
    rw [← BitVec.xor_eq_zero_iff]
    apply eq_zero_of_period
    intro y
    -- The key that moves the first pair to `y`.
    obtain ⟨word, hword⟩ : ∃ word : BitVec 64,
        word = y ^^^ (enc64 ^^^ packCtx ctx) ^^^ 0xa0761d6478bd642f := ⟨_, rfl⟩
    have hsame := hnone (keyOfTagWord (word.rotateRight 13))
    rw [tag32_eq_tagHash, tag32_eq_tagHash, tagKeyWord_keyOfTagWord, rotateLeft_rotateRight,
      hword, xor_moved (enc64 ^^^ packCtx ctx) (enc64 ^^^ packCtx ctx),
      xor_moved (enc64 ^^^ packCtx ctx) (enc64' ^^^ packCtx ctx'), BitVec.xor_self,
      BitVec.xor_zero] at hsame
    exact hsame.symm

/-- Adding one to the source port and to the matching bits of the word changes
the tag under no key. -/
theorem tag32_word_and_port_cancel :
    ((0x0000000000000000, ⟨50000, 443, 6⟩) : BitVec 64 × ProxySrcCtx) ≠
        (0x0001000000000000, ⟨50001, 443, 6⟩) ∧
      ∀ key, tag32 0x0000000000000000 ⟨50000, 443, 6⟩ key =
        tag32 0x0001000000000000 ⟨50001, 443, 6⟩ key := by
  have hxor : 0x0000000000000000 ^^^ packCtx ⟨50000, 443, 6⟩ =
      0x0001000000000000 ^^^ packCtx ⟨50001, 443, 6⟩ := by decide
  refine ⟨by decide, ?_⟩
  intro key
  rw [tag32_eq_tagHash, tag32_eq_tagHash, hxor]

/-! ## The whole key -/

/-- The two mask key words as `key_ctx_mix` sees them. -/
def maskKeyWord (key : ProxySrcKey) : BitVec 64 :=
  (keyWordHigh key.princeKey).rotateLeft 11 ^^^ (keyWordLow key.princeKey).rotateRight 7

theorem keyCtxMix_eq (ctx : ProxySrcCtx) (key : ProxySrcKey) :
    keyCtxMix ctx key = mix64 (hashCtx ctx ^^^ maskKeyWord key ^^^ 0x9e3779b97f4a7c15) := by
  simp only [keyCtxMix, maskKeyWord, BitVec.xor_assoc]

/-- Some ids and some flow have different addresses under the two keys. -/
def Separated (key key' : ProxySrcKey) : Prop :=
  ∃ c d ctx, c ≤ 0xffffff ∧ d ≤ 0xffffff ∧
    encodeProxySrc c d ctx key ≠ encodeProxySrc c d ctx key'

section Keys

variable {key key' : ProxySrcKey} {ctx : ProxySrcCtx} {c d : BitVec 32}

theorem keyCtxMix_congr (hmask : maskKeyWord key = maskKeyWord key') (ctx : ProxySrcCtx) :
    keyCtxMix ctx key = keyCtxMix ctx key' := by
  rw [keyCtxMix_eq, keyCtxMix_eq, hmask]

theorem maskIds_congr (hmask : maskKeyWord key = maskKeyWord key') (c d : BitVec 32)
    (ctx : ProxySrcCtx) : maskIds c d ctx key = maskIds c d ctx key' := by
  rw [maskIds, maskIds, keyCtxMix_congr hmask]

/-- The codec knows a key by its two words only. -/
theorem encodeProxySrc_congr (hmask : maskKeyWord key = maskKeyWord key')
    (htag : tagKeyWord key = tagKeyWord key') (c d : BitVec 32) (ctx : ProxySrcCtx) :
    encodeProxySrc c d ctx key = encodeProxySrc c d ctx key' := by
  have htag32 : ∀ enc64, tag32 enc64 ctx key = tag32 enc64 ctx key' := by
    intro enc64
    rw [tag32_eq_tagHash, tag32_eq_tagHash, htag]
  apply Option.ext
  intro addr
  rw [encodeProxySrc_eq_some_iff, encodeProxySrc_eq_some_iff, maskIds_congr hmask, htag32]

theorem fields_eq_of_encode_eq (hc : c ≤ 0xffffff) (hd : d ≤ 0xffffff)
    (h : encodeProxySrc c d ctx key = encodeProxySrc c d ctx key') :
    maskIds c d ctx key = maskIds c d ctx key' ∧
      tag32 (maskIds c d ctx key) ctx key = tag32 (maskIds c d ctx key') ctx key' := by
  have hown := (encodeProxySrc_eq_some_iff c d ctx key _).mpr ⟨hc, hd, rfl⟩
  obtain ⟨-, -, hother⟩ := (encodeProxySrc_eq_some_iff c d ctx key' _).mp (h.symm.trans hown)
  have henc := congrArg encField hother
  have htag := congrArg tagField hother
  rw [encField_assemble, encField_assemble] at henc
  rw [tagField_assemble, tagField_assemble] at htag
  exact ⟨henc.symm, htag.symm⟩

theorem rotateLeft_zero (r : ℕ) : (0#64).rotateLeft r = 0#64 := by
  apply BitVec.eq_of_getLsbD_eq
  intro i hi
  simp [BitVec.getLsbD_rotateLeft]

theorem maskIds_zero (ctx : ProxySrcCtx) (key : ProxySrcKey) :
    maskIds 0 0 ctx key = keyCtxMix ctx key ^^^ 0xa5a5a5a5a5a5a5a5 := by
  rw [maskIds, show packIds 0 0 = 0#64 by decide, rotateLeft_zero, BitVec.zero_xor]

/-- Different mask words show in the masked word of the ids zero. -/
theorem separated_of_maskKeyWord (hne : maskKeyWord key ≠ maskKeyWord key') :
    Separated key key' := by
  refine ⟨0, 0, ⟨0, 0, 0⟩, by decide, by decide, fun heq ↦ hne ?_⟩
  have henc := (fields_eq_of_encode_eq (by decide) (by decide) heq).1
  rw [maskIds_zero, maskIds_zero, BitVec.xor_left_inj, keyCtxMix_eq, keyCtxMix_eq] at henc
  have hwords := mix64_injective henc
  rwa [BitVec.xor_left_inj, BitVec.xor_right_inj] at hwords

/-! ### Tags under one mask -/

/-- The count by which the masked ids are rotated. -/
def rotation (ctx : ProxySrcCtx) (key : ProxySrcKey) : ℕ :=
  ((keyCtxMix ctx key &&& 63).setWidth 32).toNat

/-- Rotated by this count, the sixteen bits of padding stay clear of the bits
that the tag's hash needs. -/
def LeavesRoom (r : ℕ) : Prop :=
  4 ≤ r ∧ r ≤ 14 ∨ 34 ≤ r ∧ r ≤ 44

instance (r : ℕ) : Decidable (LeavesRoom r) :=
  inferInstanceAs (Decidable (_ ∨ _))

theorem rotation_lt (ctx : ProxySrcCtx) (key : ProxySrcKey) : rotation ctx key < 64 := by
  have hle := @Nat.and_le_right (keyCtxMix ctx key).toNat 63
  have hand : (keyCtxMix ctx key &&& 63).toNat = (keyCtxMix ctx key).toNat &&& 63 :=
    BitVec.toNat_and _ _
  rw [rotation, BitVec.toNat_setWidth, hand]
  omega

/-- All words are masked ids that differ from those of the ids zero off the
rotated padding. -/
theorem exists_maskIds (ctx : ProxySrcCtx) (key : ProxySrcKey) {f : BitVec 64}
    (hf : f &&& (0xffff#64).rotateLeft (rotation ctx key) = 0#64) :
    ∃ c d, c ≤ 0xffffff ∧ d ≤ 0xffffff ∧ maskIds c d ctx key = maskIds 0 0 ctx key ^^^ f := by
  have hpad : f.rotateRight (rotation ctx key) &&& 0xffff = 0#64 := by
    have hrow := congrArg (fun x ↦ x.rotateRight (rotation ctx key)) hf
    have hzero := rotateRight_rotateLeft (0#64) (rotation ctx key)
    rw [rotateLeft_zero] at hzero
    simp only [WordLayers.rotateRight_and, rotateRight_rotateLeft, hzero] at hrow
    exact hrow
  obtain ⟨hc, hd, hpack⟩ := (packIds_eq_iff _ _ _).mpr ⟨hpad, rfl, rfl⟩
  refine ⟨_, _, hc, hd, ?_⟩
  rw [maskIds_zero, maskIds, hpack, ← rotation, rotateLeft_rotateRight, BitVec.xor_assoc,
    BitVec.xor_comm f]

/-- Different tag words show in the tag of some ids, if a context leaves them
room. -/
theorem separated_of_tagKeyWord (hne : tagKeyWord key ≠ tagKeyWord key')
    (hroom : LeavesRoom (rotation ctx key)) : Separated key key' := by
  by_cases hmask : maskKeyWord key ≠ maskKeyWord key'
  · exact separated_of_maskKeyWord hmask
  rw [not_not] at hmask
  have hfree : ∀ r < 64, LeavesRoom r →
      0xf0000003c000000f#64 &&& (0xffff#64).rotateLeft r = 0#64 := by decide +kernel
  have hshift : ∀ r < 64,
      (0xffff#64).rotateLeft r <<< 30 &&& (0xffff#64).rotateLeft r = 0#64 := by decide +kernel
  by_contra hnone
  apply hne
  rw [← BitVec.xor_eq_zero_iff]
  have hlt := rotation_lt ctx key
  apply eq_zero_of_period_off (hfree _ hlt hroom) (hshift _ hlt)
    (y := maskIds 0 0 ctx key ^^^ packCtx ctx ^^^ tagKeyWord key' ^^^ 0xa0761d6478bd642f)
  intro f hf
  obtain ⟨c, d, hc, hd, hids⟩ := exists_maskIds ctx key hf
  have hsame : encodeProxySrc c d ctx key = encodeProxySrc c d ctx key' := by
    by_contra hdiff
    exact hnone ⟨c, d, ctx, hc, hd, hdiff⟩
  obtain ⟨-, htag⟩ := fields_eq_of_encode_eq hc hd hsame
  rw [← maskIds_congr hmask, tag32_eq_tagHash, tag32_eq_tagHash, hids] at htag
  have hown : maskIds 0 0 ctx key ^^^ packCtx ctx ^^^ tagKeyWord key' ^^^ 0xa0761d6478bd642f ^^^
      f ^^^ (tagKeyWord key ^^^ tagKeyWord key') =
        maskIds 0 0 ctx key ^^^ f ^^^ packCtx ctx ^^^ tagKeyWord key ^^^ 0xa0761d6478bd642f ^^^
          (tagKeyWord key' ^^^ tagKeyWord key') := by ac_rfl
  have hother : maskIds 0 0 ctx key ^^^ packCtx ctx ^^^ tagKeyWord key' ^^^ 0xa0761d6478bd642f ^^^
      f = maskIds 0 0 ctx key ^^^ f ^^^ packCtx ctx ^^^ tagKeyWord key' ^^^
        0xa0761d6478bd642f := by ac_rfl
  rw [hown, hother, BitVec.xor_self, BitVec.xor_zero, htag]

-- The key and the flow of the source's tests: a rotation by 39.
example (hne : tagKeyWord testKey ≠ tagKeyWord key') : Separated testKey key' :=
  separated_of_tagKeyWord hne
    (show LeavesRoom (rotation ⟨50000, 443, 6⟩ testKey) by decide +kernel)

theorem Separated.word_ne (h : Separated key key') :
    maskKeyWord key ≠ maskKeyWord key' ∨ tagKeyWord key ≠ tagKeyWord key' := by
  obtain ⟨c, d, ctx, -, -, hne⟩ := h
  by_contra hsame
  push Not at hsame
  exact hne (encodeProxySrc_congr hsame.1 hsame.2 c d ctx)

end Keys

def zeroKey : ProxySrcKey := ⟨Vector.replicate 16 0, Vector.replicate 16 0⟩

def onesKey : ProxySrcKey := ⟨Vector.replicate 16 0xff, Vector.replicate 16 0xff⟩

theorem maskKeyWord_zeroKey : maskKeyWord zeroKey = 0#64 := by
  decide +kernel

theorem tagKeyWord_zeroKey : tagKeyWord zeroKey = 0#64 := by
  decide +kernel

/-- The three fields of a flow context stand in disjoint bits of its word. -/
theorem getLsbD_packCtx (ctx : ProxySrcCtx) (i : ℕ) :
    (packCtx ctx).getLsbD i =
      if i < 24 then false else if i < 32 then ctx.proto.getLsbD (i - 24)
      else if i < 48 then ctx.dstPort.getLsbD (i - 32)
      else ctx.srcPort.getLsbD (i - 48) := by
  have hsrc : 64 ≤ i → ctx.srcPort.getLsbD (i - 48) = false :=
    fun h ↦ BitVec.getLsbD_of_ge _ _ (by omega)
  have hdst : 48 ≤ i → ctx.dstPort.getLsbD (i - 32) = false :=
    fun h ↦ BitVec.getLsbD_of_ge _ _ (by omega)
  have hproto : 32 ≤ i → ctx.proto.getLsbD (i - 24) = false :=
    fun h ↦ BitVec.getLsbD_of_ge _ _ (by omega)
  simp only [packCtx, BitVec.getLsbD_or, BitVec.getLsbD_shiftLeft, BitVec.getLsbD_setWidth]
  grind

theorem packCtx_injective : Function.Injective packCtx := by
  intro a b h
  have hbit : ∀ i, (packCtx a).getLsbD i = (packCtx b).getLsbD i := fun i ↦ by rw [h]
  simp only [getLsbD_packCtx] at hbit
  have hsrc : a.srcPort = b.srcPort := by
    apply BitVec.eq_of_getLsbD_eq
    intro i hi
    simpa [show ¬ 48 + i < 24 by omega, show ¬ 48 + i < 32 by omega] using hbit (48 + i)
  have hdst : a.dstPort = b.dstPort := by
    apply BitVec.eq_of_getLsbD_eq
    intro i hi
    simpa [show ¬ 32 + i < 24 by omega, show 32 + i < 48 by omega] using hbit (32 + i)
  have hproto : a.proto = b.proto := by
    apply BitVec.eq_of_getLsbD_eq
    intro i hi
    simpa [show 24 + i < 32 by omega] using hbit (24 + i)
  cases a
  cases b
  simp only at hsrc hdst hproto
  rw [hsrc, hdst, hproto]

/-- `hash_ctx` spells out the mixer that `key_ctx_mix` calls. -/
theorem hashCtx_eq_mix64 (ctx : ProxySrcCtx) : hashCtx ctx = mix64 (packCtx ctx) := rfl

theorem flow_contexts_never_collide :
    Function.Bijective mix64 ∧ (∀ ctx, hashCtx ctx = mix64 (packCtx ctx)) ∧
      Function.Injective hashCtx ∧
      ∀ key : ProxySrcKey, Function.Injective fun ctx ↦ keyCtxMix ctx key := by
  have hhash : Function.Injective hashCtx := by
    intro a b h
    rw [hashCtx_eq_mix64, hashCtx_eq_mix64] at h
    exact packCtx_injective (mix64_injective h)
  refine ⟨Finite.injective_iff_bijective.mp mix64_injective, hashCtx_eq_mix64, hhash, ?_⟩
  intro key a b h
  simp only [keyCtxMix_eq] at h
  have hword := mix64_injective h
  rw [BitVec.xor_left_inj, BitVec.xor_left_inj] at hword
  exact hhash hword

end PrototypeNet
