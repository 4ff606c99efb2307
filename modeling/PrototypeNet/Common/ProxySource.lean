import PrototypeNet.Common.Address

/-!
# The proxy-source codec

A proxy-source address is the proxy prefix, a 64-bit word that hides the
client and domain ids under a keyed rotation and mask, and a 32-bit tag over
that word and the flow.  `encodeProxySrc` and `decodeProxySrc` follow the
source; the main result is that, on addresses with the proxy prefix, they are
the two directions of one partial bijection.
-/

namespace PrototypeNet

open ByteWords

/-! ## Keyed mixing -/

def mix64 (x₀ : BitVec 64) : BitVec 64 :=
  let x₁ := x₀ ^^^ (x₀ >>> 30)
  let x₂ := x₁ * 0xbf58476d1ce4e5b9
  let x₃ := x₂ ^^^ (x₂ >>> 27)
  let x₄ := x₃ * 0x94d049bb133111eb
  x₄ ^^^ (x₄ >>> 31)

def packCtx (ctx : ProxySrcCtx) : BitVec 64 :=
  ctx.srcPort.setWidth 64 <<< 48 ||| ctx.dstPort.setWidth 64 <<< 32 |||
    ctx.proto.setWidth 64 <<< 24

/-- `crypto::hash_ctx`: the packed context through the splitmix64 finaliser,
which the source writes out a second time. -/
def hashCtx (ctx : ProxySrcCtx) : BitVec 64 :=
  let h₀ := packCtx ctx
  let h₁ := h₀ ^^^ (h₀ >>> 30)
  let h₂ := h₁ * 0xbf58476d1ce4e5b9
  let h₃ := h₂ ^^^ (h₂ >>> 27)
  let h₄ := h₃ * 0x94d049bb133111eb
  h₄ ^^^ (h₄ >>> 31)

def keyWordHigh (k : Vector Byte 16) : BitVec 64 :=
  beWord64 k[0]! k[1]! k[2]! k[3]! k[4]! k[5]! k[6]! k[7]!

def keyWordLow (k : Vector Byte 16) : BitVec 64 :=
  beWord64 k[8]! k[9]! k[10]! k[11]! k[12]! k[13]! k[14]! k[15]!

def keyCtxMix (ctx : ProxySrcCtx) (key : ProxySrcKey) : BitVec 64 :=
  let k0 := keyWordHigh key.princeKey
  let k1 := keyWordLow key.princeKey
  let h := hashCtx ctx
  mix64 (h ^^^ k0.rotateLeft 11 ^^^ k1.rotateRight 7 ^^^ 0x9e3779b97f4a7c15)

def tag32 (enc64 : BitVec 64) (ctx : ProxySrcCtx) (key : ProxySrcKey) : BitVec 32 :=
  let k2 := keyWordHigh key.siphashKey
  let k3 := keyWordLow key.siphashKey
  let ctxBits := packCtx ctx
  let t := mix64 (enc64 ^^^ ctxBits ^^^ k2.rotateLeft 13 ^^^ k3.rotateRight 17 ^^^
    0xa0761d6478bd642f)
  t.setWidth 32 ^^^ (t >>> 32).setWidth 32

/-! ## Encoding and decoding -/

/-- The plaintext word: client id in bits 40 to 63, domain id in bits 16 to
39, sixteen zero bits below. -/
def packIds (clientId domainId : BitVec 32) : BitVec 64 :=
  clientId.setWidth 64 <<< 40 ||| domainId.setWidth 64 <<< 16

def encodeProxySrc (clientId domainId : BitVec 32) (ctx : ProxySrcCtx) (key : ProxySrcKey) :
    Option Ipv6Addr :=
  if proxySrcClientIdMax < clientId ∨ proxySrcDomainIdMax < domainId then none
  else
    let p64 := packIds clientId domainId
    let m := keyCtxMix ctx key
    let rot := (m &&& 63).setWidth 32
    let enc64 := p64.rotateLeft rot.toNat ^^^ m ^^^ 0xa5a5a5a5a5a5a5a5
    let enc64Bytes : Vector Byte 8 := toBeBytes 8 enc64
    let tag : Vector Byte 4 := toBeBytes 4 (tag32 enc64 ctx key)
    some #v[proxySrcPrefix[0]!, proxySrcPrefix[1]!, proxySrcPrefix[2]!, proxySrcPrefix[3]!,
      enc64Bytes[0]!, enc64Bytes[1]!, enc64Bytes[2]!, enc64Bytes[3]!,
      enc64Bytes[4]!, enc64Bytes[5]!, enc64Bytes[6]!, enc64Bytes[7]!,
      tag[0]!, tag[1]!, tag[2]!, tag[3]!]

def decodeProxySrc (addr : Ipv6Addr) (ctx : ProxySrcCtx) (key : ProxySrcKey) :
    Option (BitVec 32 × BitVec 32) :=
  let enc64 := beWord64 addr[4]! addr[5]! addr[6]! addr[7]! addr[8]! addr[9]! addr[10]! addr[11]!
  let packetTag := beWord32 addr[12]! addr[13]! addr[14]! addr[15]!
  let expectedTag := tag32 enc64 ctx key
  if packetTag ≠ expectedTag then none
  else
    let m := keyCtxMix ctx key
    let rot := (m &&& 63).setWidth 32
    let p64 := (enc64 ^^^ m ^^^ 0xa5a5a5a5a5a5a5a5).rotateRight rot.toNat
    if p64 &&& 0xffff ≠ 0#64 then none
    else
      let clientId := ((p64 >>> 40) &&& 0x00ffffff).setWidth 32
      let domainId := ((p64 >>> 16) &&& 0x00ffffff).setWidth 32
      some (clientId, domainId)

/-! ## The three fields of a proxy-source address -/

def encField (addr : Ipv6Addr) : BitVec 64 :=
  beWord64 addr[4]! addr[5]! addr[6]! addr[7]! addr[8]! addr[9]! addr[10]! addr[11]!

def tagField (addr : Ipv6Addr) : BitVec 32 :=
  beWord32 addr[12]! addr[13]! addr[14]! addr[15]!

/-- Prefix, masked word and tag laid out as `encodeProxySrc` does. -/
def assemble (enc64 : BitVec 64) (tag : BitVec 32) : Ipv6Addr :=
  let e : Vector Byte 8 := toBeBytes 8 enc64
  let t : Vector Byte 4 := toBeBytes 4 tag
  #v[proxySrcPrefix[0]!, proxySrcPrefix[1]!, proxySrcPrefix[2]!, proxySrcPrefix[3]!,
    e[0]!, e[1]!, e[2]!, e[3]!, e[4]!, e[5]!, e[6]!, e[7]!, t[0]!, t[1]!, t[2]!, t[3]!]

@[simp] theorem encField_assemble (enc64 : BitVec 64) (tag : BitVec 32) :
    encField (assemble enc64 tag) = enc64 :=
  beWord64_toBeBytes enc64

@[simp] theorem tagField_assemble (enc64 : BitVec 64) (tag : BitVec 32) :
    tagField (assemble enc64 tag) = tag :=
  beWord32_toBeBytes tag

theorem assemble_fields (addr : Ipv6Addr) (h : HasPrefix proxySrcPrefix addr) :
    assemble (encField addr) (tagField addr) = addr := by
  obtain ⟨h₀, h₁, h₂, h₃⟩ := h
  have he : (toBeBytes 8 (encField addr) : Vector Byte 8) =
      #v[addr[4]!, addr[5]!, addr[6]!, addr[7]!, addr[8]!, addr[9]!, addr[10]!, addr[11]!] :=
    toBeBytes_fromBeBytes (by norm_num) _
  have ht : (toBeBytes 4 (tagField addr) : Vector Byte 4) =
      #v[addr[12]!, addr[13]!, addr[14]!, addr[15]!] :=
    toBeBytes_fromBeBytes (by norm_num) _
  apply Vector.ext
  intro i hi
  simp only [assemble, he, ht, ← h₀, ← h₁, ← h₂, ← h₃]
  interval_cases i <;> rfl

theorem hasPrefix_assemble (enc64 : BitVec 64) (tag : BitVec 32) :
    HasPrefix proxySrcPrefix (assemble enc64 tag) :=
  ⟨rfl, rfl, rfl, rfl⟩

theorem assemble_eq_iff (enc64 : BitVec 64) (tag : BitVec 32) (addr : Ipv6Addr)
    (h : HasPrefix proxySrcPrefix addr) :
    assemble enc64 tag = addr ↔ enc64 = encField addr ∧ tag = tagField addr := by
  constructor
  · rintro rfl
    simp
  · rintro ⟨rfl, rfl⟩
    exact assemble_fields addr h

/-! ## Packing the two ids -/

theorem toNat_packIds {c d : BitVec 32} (hc : c.toNat < 2 ^ 24) (hd : d.toNat < 2 ^ 24) :
    (packIds c d).toNat = c.toNat * 2 ^ 40 + d.toNat * 2 ^ 16 := by
  have hc' : (c.setWidth 64).toNat = c.toNat := by
    rw [BitVec.toNat_setWidth]
    omega
  have hd' : (d.setWidth 64 <<< 16).toNat = d.toNat * 2 ^ 16 := by
    rw [BitVec.toNat_shiftLeft, BitVec.toNat_setWidth, Nat.shiftLeft_eq]
    omega
  rw [packIds, toNat_shiftLeft_or _ _ 40 (by omega) (by omega), hc', hd']

/-- The 24 bits of a word from bit `n` on. -/
theorem toNat_field24 (p : BitVec 64) (n : ℕ) :
    (((p >>> n) &&& 0x00ffffff).setWidth 32).toNat = p.toNat / 2 ^ n % 2 ^ 24 := by
  rw [BitVec.toNat_setWidth, toNat_and_ones _ _ 24 rfl, BitVec.toNat_ushiftRight,
    Nat.shiftRight_eq_div_pow]
  omega

/-- A word splits into two 24-bit ids and a zero pad in exactly one way. -/
theorem packIds_eq_iff (c d : BitVec 32) (p : BitVec 64) :
    (c ≤ proxySrcClientIdMax ∧ d ≤ proxySrcDomainIdMax ∧ packIds c d = p) ↔
      p &&& 0xffff = 0#64 ∧ ((p >>> 40) &&& 0x00ffffff).setWidth 32 = c ∧
        ((p >>> 16) &&& 0x00ffffff).setWidth 32 = d := by
  have hp : p.toNat < 2 ^ 64 := p.isLt
  have hpad : (p &&& 0xffff).toNat = p.toNat % 2 ^ 16 := toNat_and_ones p _ 16 rfl
  have hhigh := toNat_field24 p 40
  have hlow := toNat_field24 p 16
  constructor
  · rintro ⟨hc, hd, rfl⟩
    have hc' : c.toNat < 2 ^ 24 := Nat.lt_succ_of_le (BitVec.le_def.mp hc)
    have hd' : d.toNat < 2 ^ 24 := Nat.lt_succ_of_le (BitVec.le_def.mp hd)
    have hval := toNat_packIds hc' hd'
    refine ⟨?_, ?_, ?_⟩
    · apply BitVec.eq_of_toNat_eq
      rw [hpad, BitVec.toNat_zero]
      omega
    · apply BitVec.eq_of_toNat_eq
      rw [hhigh]
      omega
    · apply BitVec.eq_of_toNat_eq
      rw [hlow]
      omega
  · rintro ⟨hzero, rfl, rfl⟩
    have hpad' : p.toNat % 2 ^ 16 = 0 := by
      rw [← hpad, hzero, BitVec.toNat_zero]
    have hc' : p.toNat / 2 ^ 40 % 2 ^ 24 < 2 ^ 24 := by omega
    have hd' : p.toNat / 2 ^ 16 % 2 ^ 24 < 2 ^ 24 := by omega
    refine ⟨?_, ?_, ?_⟩
    · rw [BitVec.le_def, hhigh]
      exact Nat.le_of_lt_succ hc'
    · rw [BitVec.le_def, hlow]
      exact Nat.le_of_lt_succ hd'
    · apply BitVec.eq_of_toNat_eq
      rw [toNat_packIds (hhigh ▸ hc') (hlow ▸ hd'), hhigh, hlow]
      omega

/-! ## Exactness of the codec -/

def maskIds (c d : BitVec 32) (ctx : ProxySrcCtx) (key : ProxySrcKey) : BitVec 64 :=
  let m := keyCtxMix ctx key
  (packIds c d).rotateLeft ((m &&& 63).setWidth 32).toNat ^^^ m ^^^ 0xa5a5a5a5a5a5a5a5

def unmask (enc64 : BitVec 64) (ctx : ProxySrcCtx) (key : ProxySrcKey) : BitVec 64 :=
  let m := keyCtxMix ctx key
  (enc64 ^^^ m ^^^ 0xa5a5a5a5a5a5a5a5).rotateRight ((m &&& 63).setWidth 32).toNat

theorem maskIds_eq_iff (c d : BitVec 32) (ctx : ProxySrcCtx) (key : ProxySrcKey)
    (enc64 : BitVec 64) :
    maskIds c d ctx key = enc64 ↔ packIds c d = unmask enc64 ctx key := by
  rw [maskIds, unmask, BitVec.xor_assoc, BitVec.xor_assoc]
  exact rotateLeft_xor_eq_iff _ _ _ _

theorem encodeProxySrc_eq_some_iff (c d : BitVec 32) (ctx : ProxySrcCtx) (key : ProxySrcKey)
    (addr : Ipv6Addr) :
    encodeProxySrc c d ctx key = some addr ↔
      c ≤ proxySrcClientIdMax ∧ d ≤ proxySrcDomainIdMax ∧
        assemble (maskIds c d ctx key) (tag32 (maskIds c d ctx key) ctx key) = addr := by
  have hunfold : encodeProxySrc c d ctx key =
      if proxySrcClientIdMax < c ∨ proxySrcDomainIdMax < d then none
      else some (assemble (maskIds c d ctx key) (tag32 (maskIds c d ctx key) ctx key)) := rfl
  rw [hunfold]
  by_cases hbig : proxySrcClientIdMax < c ∨ proxySrcDomainIdMax < d
  · rw [if_pos hbig]
    constructor
    · intro h
      cases h
    · rintro ⟨hc, hd, -⟩
      rcases hbig with h | h
      · exact absurd hc (BitVec.not_le.mpr h)
      · exact absurd hd (BitVec.not_le.mpr h)
  · rw [if_neg hbig, Option.some.injEq]
    rw [not_or, BitVec.not_lt, BitVec.not_lt] at hbig
    simp only [hbig.1, hbig.2, true_and]

theorem decodeProxySrc_eq_some_iff (addr : Ipv6Addr) (ctx : ProxySrcCtx) (key : ProxySrcKey)
    (c d : BitVec 32) :
    decodeProxySrc addr ctx key = some (c, d) ↔
      tagField addr = tag32 (encField addr) ctx key ∧
        unmask (encField addr) ctx key &&& 0xffff = 0#64 ∧
          ((unmask (encField addr) ctx key >>> 40) &&& 0x00ffffff).setWidth 32 = c ∧
            ((unmask (encField addr) ctx key >>> 16) &&& 0x00ffffff).setWidth 32 = d := by
  have hunfold : decodeProxySrc addr ctx key =
      if tagField addr ≠ tag32 (encField addr) ctx key then none
      else if unmask (encField addr) ctx key &&& 0xffff ≠ 0#64 then none
      else some (((unmask (encField addr) ctx key >>> 40) &&& 0x00ffffff).setWidth 32,
        ((unmask (encField addr) ctx key >>> 16) &&& 0x00ffffff).setWidth 32) := rfl
  rw [hunfold]
  by_cases htag : tagField addr = tag32 (encField addr) ctx key
  · by_cases hpad : unmask (encField addr) ctx key &&& 0xffff = 0#64
    · rw [if_neg (not_not.mpr htag), if_neg (not_not.mpr hpad), Option.some.injEq, Prod.mk.injEq]
      simp only [htag, hpad, true_and]
    · rw [if_neg (not_not.mpr htag), if_pos hpad]
      simp only [hpad, reduceCtorEq, false_and, and_false]
  · rw [if_pos htag]
    simp [htag]

/-- On addresses with the proxy prefix, decoding and encoding are the same
relation: the tag, the pad and the ranges admit exactly the encoder's image. -/
theorem decode_iff_encode (addr : Ipv6Addr) (hpre : HasPrefix proxySrcPrefix addr)
    (ctx : ProxySrcCtx) (key : ProxySrcKey) (c d : BitVec 32) :
    decodeProxySrc addr ctx key = some (c, d) ↔ encodeProxySrc c d ctx key = some addr := by
  rw [decodeProxySrc_eq_some_iff, encodeProxySrc_eq_some_iff, assemble_eq_iff _ _ _ hpre,
    ← packIds_eq_iff, ← maskIds_eq_iff]
  constructor
  · rintro ⟨htag, hc, hd, hmask⟩
    exact ⟨hc, hd, hmask, by rw [hmask, htag]⟩
  · rintro ⟨hc, hd, hmask, htag⟩
    exact ⟨by rw [← htag, hmask], hc, hd, hmask⟩

theorem hasPrefix_of_encode {c d : BitVec 32} {ctx : ProxySrcCtx} {key : ProxySrcKey}
    {addr : Ipv6Addr} (h : encodeProxySrc c d ctx key = some addr) :
    HasPrefix proxySrcPrefix addr := by
  obtain ⟨-, -, rfl⟩ := (encodeProxySrc_eq_some_iff c d ctx key addr).mp h
  exact hasPrefix_assemble _ _

theorem decode_of_encode {c d : BitVec 32} {ctx : ProxySrcCtx} {key : ProxySrcKey}
    {addr : Ipv6Addr} (h : encodeProxySrc c d ctx key = some addr) :
    decodeProxySrc addr ctx key = some (c, d) :=
  (decode_iff_encode addr (hasPrefix_of_encode h) ctx key c d).mpr h

theorem isSome_encodeProxySrc_iff (c d : BitVec 32) (ctx : ProxySrcCtx) (key : ProxySrcKey) :
    (encodeProxySrc c d ctx key).isSome = true ↔
      c ≤ proxySrcClientIdMax ∧ d ≤ proxySrcDomainIdMax := by
  rw [Option.isSome_iff_exists]
  constructor
  · rintro ⟨addr, h⟩
    obtain ⟨hc, hd, -⟩ := (encodeProxySrc_eq_some_iff c d ctx key addr).mp h
    exact ⟨hc, hd⟩
  · rintro ⟨hc, hd⟩
    exact ⟨_, (encodeProxySrc_eq_some_iff c d ctx key _).mpr ⟨hc, hd, rfl⟩⟩

theorem proxySrc_codec_exact (key : ProxySrcKey) (ctx : ProxySrcCtx) :
    (∀ addr, HasPrefix proxySrcPrefix addr → ∀ c d,
      decodeProxySrc addr ctx key = some (c, d) ↔ encodeProxySrc c d ctx key = some addr) ∧
    (∀ c d, (encodeProxySrc c d ctx key).isSome = true ↔ c ≤ 0xffffff ∧ d ≤ 0xffffff) ∧
    (∀ c d, c ≤ 0xffffff → d ≤ 0xffffff → ∃ addr, encodeProxySrc c d ctx key = some addr ∧
      decodeProxySrc addr ctx key = some (c, d)) ∧
    (∀ addr, HasPrefix proxySrcPrefix addr → (∀ c d, encodeProxySrc c d ctx key ≠ some addr) →
      decodeProxySrc addr ctx key = none) := by
  refine ⟨?_, ?_, ?_, ?_⟩
  · intro addr hpre c d
    exact decode_iff_encode addr hpre ctx key c d
  · intro c d
    exact isSome_encodeProxySrc_iff c d ctx key
  · intro c d hc hd
    obtain ⟨addr, haddr⟩ := Option.isSome_iff_exists.mp
      ((isSome_encodeProxySrc_iff c d ctx key).mpr ⟨hc, hd⟩)
    exact ⟨addr, haddr, decode_of_encode haddr⟩
  · intro addr hpre hnone
    cases hdec : decodeProxySrc addr ctx key with
    | none => rfl
    | some ids =>
        exact absurd ((decode_iff_encode addr hpre ctx key ids.1 ids.2).mp hdec)
          (hnone ids.1 ids.2)

def testKey : ProxySrcKey where
  princeKey := #v[0x01, 0x23, 0x45, 0x67, 0x89, 0xab, 0xcd, 0xef,
    0xfe, 0xdc, 0xba, 0x98, 0x76, 0x54, 0x32, 0x10]
  siphashKey := #v[0x00, 0x01, 0x02, 0x03, 0x04, 0x05, 0x06, 0x07,
    0x08, 0x09, 0x0a, 0x0b, 0x0c, 0x0d, 0x0e, 0x0f]

theorem proxySrc_codec_exact_testKey :
    ∃ addr, encodeProxySrc 100 7 ⟨50000, 443, 6⟩ testKey = some addr ∧
      decodeProxySrc addr ⟨50000, 443, 6⟩ testKey = some (100, 7) :=
  (proxySrc_codec_exact testKey ⟨50000, 443, 6⟩).2.2.1 100 7 (by decide) (by decide)

end PrototypeNet
