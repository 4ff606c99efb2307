import PrototypeNet.Lib.ByteWords

/-!
# The shared address space

Constants that the build script generates from `contract.toml`, the value
types shared by the kernel programs and the daemon, and the three address
layouts of the proxy: synthetic destinations, client VIPs and (in
`ProxySource`) proxy-source addresses.  Indices into byte arrays are literals
within the bounds, here and in the programs.
-/

namespace PrototypeNet

open ByteWords

/-- An IPv6 address as the code holds it, `[u8; 16]` in network order. -/
abbrev Ipv6Addr := Vector Byte 16

/-! ## Generated constants -/

def syntheticPrefix : Vector Byte 4 := #v[0xfd, 0x00, 0xab, 0xcd]

def vipPoolDiscriminator : Vector Byte 4 := #v[0x00, 0x00, 0x00, 0x01]

def proxySrcPrefix : Vector Byte 4 := #v[0x20, 0x01, 0x0d, 0xb8]

def proxySrcClientIdMax : BitVec 32 := 0x00ffffff

def proxySrcDomainIdMax : BitVec 32 := 0x00ffffff

/-! ## Value types -/

/-- The flow context mixed into the proxy-source address.  Ports are in host
order; the padding bytes of the source type are always zero and never read. -/
structure ProxySrcCtx where
  srcPort : BitVec 16
  dstPort : BitVec 16
  proto : Byte
  deriving DecidableEq, Repr

structure ProxySrcKey where
  princeKey : Vector Byte 16
  siphashKey : Vector Byte 16
  deriving DecidableEq, Repr, Inhabited

/-- The accumulator of `is_zero` after the bytes at positions below `n`. -/
def ProxySrcKey.acc (key : ProxySrcKey) : (n : ℕ) → n ≤ 16 → Byte
  | 0, _ => 0
  | n + 1, h => key.acc n (by omega) ||| key.princeKey[n] ||| key.siphashKey[n]

def ProxySrcKey.isZero (key : ProxySrcKey) : Bool :=
  key.acc 16 (le_refl 16) == 0#8

structure NatEntry where
  originIpv6 : Ipv6Addr
  deriving DecidableEq, Repr

theorem ProxySrcKey.acc_eq_zero_iff (key : ProxySrcKey) (n : ℕ) (h : n ≤ 16) :
    key.acc n h = 0#8 ↔ ∀ i (hi : i < n), key.princeKey[i] = 0#8 ∧ key.siphashKey[i] = 0#8 := by
  induction n with
  | zero => simp [acc]
  | succ n ih =>
      have hsplit : key.acc (n + 1) h = 0#8 ↔
          key.acc n (by omega) = 0#8 ∧ key.princeKey[n] = 0#8 ∧ key.siphashKey[n] = 0#8 := by
        rw [acc, BitVec.or_eq_zero_iff, BitVec.or_eq_zero_iff, and_assoc]
      rw [hsplit, ih]
      constructor
      · rintro ⟨hbelow, hlast⟩ i hi
        rcases Nat.lt_succ_iff_lt_or_eq.mp hi with hin | rfl
        · exact hbelow i hin
        · exact hlast
      · intro hall
        exact ⟨fun i hi ↦ hall i (by omega), hall n (by omega)⟩

theorem ProxySrcKey.isZero_iff (key : ProxySrcKey) :
    key.isZero = true ↔ key = ⟨Vector.replicate 16 0, Vector.replicate 16 0⟩ := by
  rw [isZero, beq_iff_eq, acc_eq_zero_iff]
  constructor
  · intro hall
    obtain ⟨prince, siphash⟩ := key
    congr 1
    · apply Vector.ext
      intro i hi
      simpa using (hall i hi).1
    · apply Vector.ext
      intro i hi
      simpa using (hall i hi).2
  · rintro rfl i hi
    simp

/-! ## Synthetic addresses and client VIPs -/

def domainIdFromIpv6 (addr : Ipv6Addr) : BitVec 32 :=
  beWord32 addr[4]! addr[5]! addr[6]! addr[7]!

def syntheticIpv6 (domainId : BitVec 32) : Ipv6Addr :=
  let idBytes : Vector Byte 4 := toBeBytes 4 domainId
  #v[syntheticPrefix[0]!, syntheticPrefix[1]!, syntheticPrefix[2]!, syntheticPrefix[3]!,
    idBytes[0]!, idBytes[1]!, idBytes[2]!, idBytes[3]!,
    0, 0, 0, 0, 0, 0, 0, 1]

def clientVipFromId24 (clientId : BitVec 32) : Ipv6Addr :=
  let d := vipPoolDiscriminator
  let cid : Vector Byte 4 := toBeBytes 4 clientId
  #v[syntheticPrefix[0]!, syntheticPrefix[1]!, syntheticPrefix[2]!, syntheticPrefix[3]!,
    d[0]!, d[1]!, d[2]!, d[3]!,
    0x00, 0x00, 0x00, 0x00,
    cid[0]!, cid[1]!, cid[2]!, cid[3]!]

/-- Bytes 12 to 15 of an address, where a client VIP holds its client id. -/
def clientIdFromVip (addr : Ipv6Addr) : BitVec 32 :=
  beWord32 addr[12]! addr[13]! addr[14]! addr[15]!

def HasPrefix (pre : Vector Byte 4) (addr : Ipv6Addr) : Prop :=
  addr[0]! = pre[0]! ∧ addr[1]! = pre[1]! ∧ addr[2]! = pre[2]! ∧ addr[3]! = pre[3]!

instance (pre : Vector Byte 4) (addr : Ipv6Addr) : Decidable (HasPrefix pre addr) :=
  inferInstanceAs (Decidable (_ ∧ _ ∧ _ ∧ _))

@[simp] theorem domainIdFromIpv6_syntheticIpv6 (domainId : BitVec 32) :
    domainIdFromIpv6 (syntheticIpv6 domainId) = domainId :=
  beWord32_toBeBytes domainId

@[simp] theorem clientIdFromVip_clientVipFromId24 (clientId : BitVec 32) :
    clientIdFromVip (clientVipFromId24 clientId) = clientId :=
  beWord32_toBeBytes clientId

theorem syntheticIpv6_injective : Function.Injective syntheticIpv6 :=
  Function.LeftInverse.injective domainIdFromIpv6_syntheticIpv6

theorem hasPrefix_syntheticIpv6 (domainId : BitVec 32) :
    HasPrefix syntheticPrefix (syntheticIpv6 domainId) :=
  ⟨rfl, rfl, rfl, rfl⟩

end PrototypeNet
