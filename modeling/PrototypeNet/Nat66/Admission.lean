import PrototypeNet.Nat66.Checksum
import PrototypeNet.Control.System

/-!
# Which packets `tc_ingress` takes

`tc_ingress` looks at four bytes of the destination, then reads a domain id
from the next four and a client id from the last four bytes of the source.
Two questions are left open by that.  Are the remaining bytes those of a
client VIP and of a synthetic address, so that replies find their way back?
And does every id that the pool and the sequence can yield fit the codec?
-/

namespace PrototypeNet

open ByteWords Buffer Fallible

/-! ## Genuine addresses -/

/-- The first twelve bytes are those of the network that VIPs are assigned
from. -/
def InVipNet (a : Ipv6Addr) : Prop :=
  HasPrefix syntheticPrefix a ∧
    (a[4]! = vipPoolDiscriminator[0]! ∧ a[5]! = vipPoolDiscriminator[1]! ∧
      a[6]! = vipPoolDiscriminator[2]! ∧ a[7]! = vipPoolDiscriminator[3]!) ∧
    a[8]! = 0 ∧ a[9]! = 0 ∧ a[10]! = 0 ∧ a[11]! = 0

/-- The last eight bytes are `::1`, the interface part of every synthetic
address. -/
def HasSyntheticHost (a : Ipv6Addr) : Prop :=
  (a[8]! = 0 ∧ a[9]! = 0 ∧ a[10]! = 0 ∧ a[11]! = 0) ∧ a[12]! = 0 ∧ a[13]! = 0 ∧ a[14]! = 0 ∧
    a[15]! = 1

instance (a : Ipv6Addr) : Decidable (InVipNet a) :=
  inferInstanceAs (Decidable (_ ∧ _ ∧ _))

instance (a : Ipv6Addr) : Decidable (HasSyntheticHost a) :=
  inferInstanceAs (Decidable (_ ∧ _))

theorem toBeBytes_beWord32 (b₀ b₁ b₂ b₃ : Byte) :
    (toBeBytes 4 (beWord32 b₀ b₁ b₂ b₃) : Vector Byte 4) = #v[b₀, b₁, b₂, b₃] :=
  toBeBytes_fromBeBytes (by norm_num) _

theorem eq_clientVip_iff (a : Ipv6Addr) :
    a = clientVipFromId24 (clientIdFromVip a) ↔ InVipNet a := by
  constructor
  · intro h
    rw [h]
    refine ⟨⟨rfl, rfl, rfl, rfl⟩, ⟨rfl, rfl, rfl, rfl⟩, rfl, rfl, rfl, rfl⟩
  · rintro ⟨⟨h₀, h₁, h₂, h₃⟩, ⟨h₄, h₅, h₆, h₇⟩, h₈, h₉, h₁₀, h₁₁⟩
    apply Vector.toList_inj.mp
    rw [toList_addr a, h₀, h₁, h₂, h₃, h₄, h₅, h₆, h₇, h₈, h₉, h₁₀, h₁₁]
    simp only [clientVipFromId24, clientIdFromVip, toBeBytes_beWord32]
    rfl

theorem eq_syntheticIpv6_iff (a : Ipv6Addr) :
    a = syntheticIpv6 (domainIdFromIpv6 a) ↔ HasPrefix syntheticPrefix a ∧ HasSyntheticHost a := by
  constructor
  · intro h
    rw [h]
    exact ⟨⟨rfl, rfl, rfl, rfl⟩, ⟨rfl, rfl, rfl, rfl⟩, rfl, rfl, rfl, rfl⟩
  · rintro ⟨⟨h₀, h₁, h₂, h₃⟩, ⟨h₈, h₉, h₁₀, h₁₁⟩, h₁₂, h₁₃, h₁₄, h₁₅⟩
    apply Vector.toList_inj.mp
    rw [toList_addr a, h₀, h₁, h₂, h₃, h₈, h₉, h₁₀, h₁₁, h₁₂, h₁₃, h₁₄, h₁₅]
    simp only [syntheticIpv6, domainIdFromIpv6, toBeBytes_beWord32]
    rfl

/-- The ids in the addresses name exactly these addresses. -/
def Genuine (t : Tuple) : Prop :=
  t.src = clientVipFromId24 (clientIdFromVip t.src) ∧ t.dst = syntheticIpv6 (domainIdFromIpv6 t.dst)

theorem genuine_iff_inner (t : Tuple) : Genuine t ↔ (Flow.ofInner t).inner = t := by
  constructor
  · rintro ⟨hsrc, hdst⟩
    rw [Flow.inner, Flow.ofInner]
    simp only [← hsrc, ← hdst]
  · intro h
    exact ⟨(congrArg Tuple.src h).symm, (congrArg Tuple.dst h).symm⟩

/-- Replies to the published tuple come back as replies to the packet itself. -/
def RepliesReachSender (build : Build) (m : Maps) (t : Tuple) : Prop :=
  ∀ pub, m.publish (Flow.ofInner t) = some pub →
    ∀ f r act s', Carries f pub.mirror r →
      exec (tcIngressWan build) ⟨r, m⟩ = (.ok act, s') → Carries f t.mirror s'.data

theorem repliesReachSender_iff (build : Build) {m : Maps} {t pub : Tuple}
    (hpub : m.publish (Flow.ofInner t) = some pub) : RepliesReachSender build m t ↔ Genuine t := by
  rw [genuine_iff_inner]
  constructor
  · intro h
    -- A reply exists, and what it comes back as decides the tuple.
    have hreply := carries_packetOf .ethernet pub.mirror []
    obtain ⟨d', hexec, hback⟩ := tcIngressWan_carries (s := ⟨_, m⟩) build hpub hreply
    have hsender := h pub hpub _ _ _ _ hreply hexec
    exact congrArg Tuple.mirror (hback.unique hsender).2
  · intro h pub' hpub' f r act s' hr hexec
    obtain ⟨d', hexec', hback⟩ := tcIngressWan_carries (s := ⟨r, m⟩) build hpub' hr
    obtain ⟨-, rfl⟩ := Prod.mk.inj (hexec.symm.trans hexec')
    rwa [h] at hback

/-- A packet that `tc_ingress` rewrites is a genuine one, is answered to its
sender and is not addressed to a VIP of the pool, exactly if its source lies in
the VIP network and its destination ends in `::1`. -/
theorem tcIngress_genuine_iff (build : Build) (s s' : Ctx) (r : Except Abort TcAction)
    (h : exec (tcIngress build) s = (r, s')) (hne : s'.data ≠ s.data) :
    ∃ f t, Carries f t s.data ∧
      ((Genuine t ∧ RepliesReachSender build s.maps t ∧
          ∀ clientId : BitVec 32, 0x10000 ≤ clientId → t.dst ≠ clientVipFromId24 clientId) ↔
        InVipNet t.src ∧ HasSyntheticHost t.dst) := by
  rcases tcIngress_cases build s with ⟨a, ha, -⟩ | ⟨f, t, pub, hc, hpre, hpub⟩
  · obtain ⟨-, rfl⟩ := Prod.mk.inj (h.symm.trans ha)
    exact absurd rfl hne
  · refine ⟨f, t, hc, ?_⟩
    rw [repliesReachSender_iff build hpub, Genuine, eq_clientVip_iff, eq_syntheticIpv6_iff]
    constructor
    · rintro ⟨⟨hsrc, -, hdst⟩, -⟩
      exact ⟨hsrc, hdst⟩
    · rintro ⟨hsrc, hdst⟩
      refine ⟨⟨hsrc, hpre, hdst⟩, ⟨hsrc, hpre, hdst⟩, ?_⟩
      rintro clientId hpool hvip
      obtain ⟨-, h₁₂, h₁₃, h₁₄, h₁₅⟩ := hdst
      have hid : clientIdFromVip t.dst = clientId := by
        rw [hvip, clientIdFromVip_clientVipFromId24]
      rw [clientIdFromVip, h₁₂, h₁₃, h₁₄, h₁₅] at hid
      rw [← hid] at hpool
      exact absurd hpool (by decide)

/-- Domain 1 is allocated: it is the first id of the sequence. -/
def firstDomainMaps : Maps :=
  { demoMaps with natMap := (BoundedMap.empty.insert 1 ⟨demoOrigin⟩).getD .empty }

def genuinePacket : List Byte :=
  packetOf .rawIpv6 ⟨clientVipFromId24 0x10000, syntheticIpv6 1, 50000, 443, .tcp⟩ []

theorem tcIngress_genuine_firstDomain :
    (exec (tcIngress .production) ⟨genuinePacket, firstDomainMaps⟩).2.data ≠ genuinePacket ∧
      ∃ f t, Carries f t genuinePacket ∧
        ((Genuine t ∧ RepliesReachSender .production firstDomainMaps t ∧
            ∀ clientId : BitVec 32, 0x10000 ≤ clientId → t.dst ≠ clientVipFromId24 clientId) ↔
          InVipNet t.src ∧ HasSyntheticHost t.dst) := by
  have hne : (exec (tcIngress .production) ⟨genuinePacket, firstDomainMaps⟩).2.data ≠
      genuinePacket := by
    decide +kernel
  exact ⟨hne, tcIngress_genuine_iff .production _ _ _ Prod.mk.eta.symm hne⟩

/-- A packet from one client to the VIP of another. -/
def clientToClient : Tuple :=
  ⟨clientVipFromId24 0x10000, clientVipFromId24 0x10001, 50000, 443, .tcp⟩

/-- It leaves for the origin of domain 1, whose id is the discriminator of the
pool. -/
theorem tcIngress_takes_clientToClient :
    Carries .rawIpv6 clientToClient (packetOf .rawIpv6 clientToClient []) ∧
      (exec (tcIngress .production)
        ⟨packetOf .rawIpv6 clientToClient [], firstDomainMaps⟩).1 = .ok .ok ∧
      window (exec (tcIngress .production)
        ⟨packetOf .rawIpv6 clientToClient [], firstDomainMaps⟩).2.data 24 16 = demoOrigin.toList ∧
      clientToClient.dst ≠ syntheticIpv6 (domainIdFromIpv6 clientToClient.dst) := by
  decide +kernel

/-! ## Ids that fit the codec -/

/-- The pool strongSwan assigns VIPs from. -/
def vipPoolStart : Ipv6Addr :=
  #v[0xfd, 0x00, 0xab, 0xcd, 0, 0, 0, 1, 0, 0, 0, 0, 0x00, 0x01, 0x00, 0x00]

def vipPoolEnd : Ipv6Addr :=
  #v[0xfd, 0x00, 0xab, 0xcd, 0, 0, 0, 1, 0, 0, 0, 0, 0xff, 0xff, 0xff, 0xff]

def addrValue (a : Ipv6Addr) : ℕ :=
  wordValue a.toList

def InVipPool (a : Ipv6Addr) : Prop :=
  addrValue vipPoolStart ≤ addrValue a ∧ addrValue a ≤ addrValue vipPoolEnd

instance (a : Ipv6Addr) : Decidable (InVipPool a) :=
  inferInstanceAs (Decidable (_ ∧ _))

/-- The last VIP of the pool whose client id has 24 bits. -/
def lastEncodableVip : Ipv6Addr :=
  clientVipFromId24 0xffffff

/-- An address is its first twelve bytes and the id in the last four. -/
theorem addrValue_eq (a : Ipv6Addr) :
    addrValue a = wordValue (a.toList.take 12) * 2 ^ 32 + (clientIdFromVip a).toNat := by
  have hlast : a.toList.drop 12 = [a[12]!, a[13]!, a[14]!, a[15]!] := by
    rw [toList_addr]
    rfl
  have hid : (clientIdFromVip a).toNat = wordValue (a.toList.drop 12) := by
    have hlt : wordValue [a[12]!, a[13]!, a[14]!, a[15]!] < 2 ^ 32 :=
      (wordValue_lt _).trans_eq (by norm_num)
    rw [clientIdFromVip, beWord32, fromBeBytes, BitVec.toNat_ofNat, hlast]
    exact Nat.mod_eq_of_lt hlt
  have hsplit := wordValue_append (a.toList.take 12) (a.toList.drop 12)
  rw [List.take_append_drop, List.length_drop, Vector.length_toList] at hsplit
  rw [addrValue, hid, hsplit]
  norm_num

/-- The pool fixes the first twelve bytes, so within it VIPs are ordered by
their client ids. -/
theorem le_lastEncodableVip_iff {a : Ipv6Addr} (h : InVipPool a) :
    addrValue a ≤ addrValue lastEncodableVip ↔ clientIdFromVip a ≤ proxySrcClientIdMax := by
  have hid := (clientIdFromVip a).isLt
  have hstart : addrValue vipPoolStart = wordValue (vipPoolStart.toList.take 12) * 2 ^ 32 + 65536 :=
    by decide
  have hend : addrValue vipPoolEnd =
      wordValue (vipPoolStart.toList.take 12) * 2 ^ 32 + 4294967295 := by
    decide
  have hlast : addrValue lastEncodableVip =
      wordValue (vipPoolStart.toList.take 12) * 2 ^ 32 + 16777215 := by
    decide
  obtain ⟨hlo, hhi⟩ := h
  rw [BitVec.le_def, show proxySrcClientIdMax.toNat = 16777215 from rfl]
  rw [addrValue_eq a] at hlo hhi ⊢
  omega

/-- The sequence yields `v`, `next_domain_id` truncates it to the id `i`, and
`insert_domain` stores that. -/
def HandedOut (v : ℕ) (i : BitVec 32) : Prop :=
  (∃ lastValue, nextval lastValue = some v) ∧ i = BitVec.ofNat 32 v ∧
    ∃ (d d' : Domains) (domain : String) (origin : Ipv6Addr),
      d.insertDomain i domain origin (syntheticIpv6 i) 300 = some (d', i, syntheticIpv6 i)

theorem handedOut_of_lt {v : ℕ} (hpos : 0 < v) (hv : v < 2 ^ 63) :
    HandedOut v (BitVec.ofNat 32 v) := by
  refine ⟨⟨v - 1, ?_⟩, rfl, .empty, _, "origin.example", Vector.replicate 16 0, rfl⟩
  rw [nextval, if_pos (by omega)]
  congr 1
  omega

/-- No packet between the two addresses is lost for lack of id bits: the codec
takes the ids under every context and key, and `tc_ingress` translates. -/
def Encodable (vip : Ipv6Addr) (i : BitVec 32) : Prop :=
  (∀ ctx key, (encodeProxySrc (clientIdFromVip vip) (domainIdFromIpv6 (syntheticIpv6 i))
    ctx key).isSome = true) ∧
  ∀ build f srcPort dstPort proto (s : Ctx) entry,
    Carries f ⟨vip, syntheticIpv6 i, srcPort, dstPort, proto⟩ s.data →
      s.maps.natMap.get i = some entry → s.maps.obfsKeys[0]!.isZero = false →
        ∃ s', exec (tcIngress build) s = (.ok .ok, s')

theorem encodable_iff (vip : Ipv6Addr) (i : BitVec 32) :
    Encodable vip i ↔ clientIdFromVip vip ≤ proxySrcClientIdMax ∧ i ≤ proxySrcDomainIdMax := by
  constructor
  · rintro ⟨hsome, -⟩
    have hids := (isSome_encodeProxySrc_iff _ _ _ _).mp (hsome ⟨0, 0, 0⟩ default)
    rwa [domainIdFromIpv6_syntheticIpv6] at hids
  · rintro ⟨hc, hd⟩
    refine ⟨?_, ?_⟩
    · intro ctx key
      rw [isSome_encodeProxySrc_iff, domainIdFromIpv6_syntheticIpv6]
      exact ⟨hc, hd⟩
    · intro build f srcPort dstPort proto s entry hcar hnat hkey
      let flow := Flow.ofInner ⟨vip, syntheticIpv6 i, srcPort, dstPort, proto⟩
      have hdom : flow.domainId = i := domainIdFromIpv6_syntheticIpv6 i
      have hkey' : s.maps.obfsKeys[0]! ≠ ⟨Vector.replicate 16 0, Vector.replicate 16 0⟩ := by
        rw [Ne, ← ProxySrcKey.isZero_iff, hkey]
        exact Bool.false_ne_true
      have hnat' : s.maps.natMap.get flow.domainId = some ⟨entry.originIpv6⟩ := by
        rw [hdom]
        exact hnat
      obtain ⟨a, hpub, -⟩ := Maps.exists_publish hc (by rw [hdom]; exact hd) hnat' hkey'
      exact ⟨_, exec_tcIngress_of_publish build hcar (hasPrefix_syntheticIpv6 i) hpub⟩

/-- Within the pool and the sequence, exactly the VIPs up to `::ff:ffff` and the
ids below `2 ^ 24` can be encoded. -/
theorem handed_out_ids_encodable_iff (vip : Ipv6Addr) (v : ℕ) (i : BitVec 32)
    (hvip : InVipPool vip) (hi : HandedOut v i) :
    Encodable vip i ↔ addrValue vip ≤ addrValue lastEncodableVip ∧ v % 2 ^ 32 < 2 ^ 24 := by
  obtain ⟨-, rfl, -⟩ := hi
  rw [encodable_iff, le_lastEncodableVip_iff hvip]
  apply and_congr_right
  intro _
  rw [BitVec.le_def, BitVec.toNat_ofNat, show proxySrcDomainIdMax.toNat = 2 ^ 24 - 1 from rfl]
  omega

theorem first_vip_encodable :
    InVipPool vipPoolStart ∧ HandedOut 1 1 ∧ Encodable vipPoolStart 1 := by
  have hpool : InVipPool vipPoolStart := by decide
  have hid : HandedOut 1 1 := handedOut_of_lt (by norm_num) (by norm_num)
  exact ⟨hpool, hid,
    (handed_out_ids_encodable_iff vipPoolStart 1 1 hpool hid).mpr ⟨by decide, by norm_num⟩⟩

/-- Packets of a client in the pool, and packets to an address in the table,
are dropped. -/
theorem handed_out_ids_dropped :
    (InVipPool (clientVipFromId24 0x1000000) ∧ HandedOut 7 7 ∧
      encodeProxySrc 0x1000000 7 ⟨50000, 443, 6⟩ testKey = none ∧
      (exec (tcIngress .production) ⟨packetOf .rawIpv6
        ⟨clientVipFromId24 0x1000000, syntheticIpv6 7, 50000, 443, .tcp⟩ [], demoMaps⟩).1 =
          .ok .shot) ∧
    (InVipPool (clientVipFromId24 0x10000) ∧ HandedOut 0x1000000 0x1000000 ∧
      encodeProxySrc 0x10000 0x1000000 ⟨50000, 443, 6⟩ testKey = none) :=
  ⟨⟨by decide, handedOut_of_lt (by norm_num) (by norm_num), by decide +kernel, by decide +kernel⟩,
    by decide, handedOut_of_lt (by norm_num) (by norm_num), by decide +kernel⟩

end PrototypeNet
