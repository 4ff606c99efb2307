import PrototypeNet.Ebpf.Packet

/-!
# What the translator is for

Seen from outside, the proxy pairs flows with public tuples.  A flow is a
client, a domain, two ports and a protocol; its public tuple is what the
origin sees.  Under fixed maps this pairing is a partial bijection: a flow has
at most one public tuple, and a public tuple belongs to at most one flow.
Outbound translation follows it in one direction and return translation in
the other.
-/

namespace PrototypeNet

/-! ## Flows -/

structure Flow where
  clientId : BitVec 32
  domainId : BitVec 32
  srcPort : BitVec 16
  dstPort : BitVec 16
  proto : L4Proto
  deriving DecidableEq, Repr

namespace Flow

/-- The tuple on the client's side: from its VIP to the synthetic address. -/
def inner (f : Flow) : Tuple :=
  ⟨clientVipFromId24 f.clientId, syntheticIpv6 f.domainId, f.srcPort, f.dstPort, f.proto⟩

/-- The flow the ids in a client-side tuple name. -/
def ofInner (t : Tuple) : Flow :=
  ⟨clientIdFromVip t.src, domainIdFromIpv6 t.dst, t.srcPort, t.dstPort, t.proto⟩

def ctx (f : Flow) : ProxySrcCtx :=
  ⟨f.srcPort, f.dstPort, f.proto.number⟩

@[simp] theorem ofInner_inner (f : Flow) : ofInner f.inner = f := by
  simp [ofInner, inner]

theorem inner_injective : Function.Injective inner :=
  Function.LeftInverse.injective ofInner_inner

def proxySrc (f : Flow) (key : ProxySrcKey) : Option Ipv6Addr :=
  encodeProxySrc f.clientId f.domainId f.ctx key

end Flow

/-! ## The pairing of flows and public tuples -/

namespace Maps

def origin (m : Maps) (domainId : BitVec 32) : Option Ipv6Addr :=
  (m.natMap.get domainId).map NatEntry.originIpv6

def activeKey (m : Maps) : Option ProxySrcKey :=
  if m.obfsKeys[0]!.isZero then none else some m.obfsKeys[0]!

def publish (m : Maps) (f : Flow) : Option Tuple :=
  match m.activeKey, m.origin f.domainId with
  | some key, some o => (f.proxySrc key).map fun a ↦ ⟨a, o, f.srcPort, f.dstPort, f.proto⟩
  | _, _ => none

def resolve (m : Maps) (t : Tuple) : Option Flow :=
  match m.activeKey with
  | none => none
  | some key =>
      if HasPrefix proxySrcPrefix t.src then
        match decodeProxySrc t.src ⟨t.srcPort, t.dstPort, t.proto.number⟩ key with
        | none => none
        | some (c, d) =>
            if m.origin d = some t.dst then some ⟨c, d, t.srcPort, t.dstPort, t.proto⟩ else none
      else none

theorem publish_eq_some_iff (m : Maps) (f : Flow) (t : Tuple) :
    m.publish f = some t ↔
      ∃ key a o, m.activeKey = some key ∧ m.origin f.domainId = some o ∧
        f.proxySrc key = some a ∧ t = ⟨a, o, f.srcPort, f.dstPort, f.proto⟩ := by
  constructor
  · intro h
    unfold publish at h
    split at h
    · rename_i key o hkey ho
      obtain ⟨a, ha, rfl⟩ := Option.map_eq_some_iff.mp h
      exact ⟨key, a, o, hkey, ho, ha, rfl⟩
    · cases h
  · rintro ⟨key, a, o, hkey, ho, ha, rfl⟩
    simp only [publish, hkey, ho, ha, Option.map_some]

theorem resolve_eq_some_iff (m : Maps) (t : Tuple) (f : Flow) :
    m.resolve t = some f ↔
      ∃ key, m.activeKey = some key ∧ HasPrefix proxySrcPrefix t.src ∧
        decodeProxySrc t.src f.ctx key = some (f.clientId, f.domainId) ∧
          m.origin f.domainId = some t.dst ∧
            f.srcPort = t.srcPort ∧ f.dstPort = t.dstPort ∧ f.proto = t.proto := by
  constructor
  · intro h
    unfold resolve at h
    split at h
    · cases h
    · rename_i key hkey
      split_ifs at h with hpre
      split at h
      · cases h
      · rename_i c d hdec
        split_ifs at h with ho
        cases h
        exact ⟨key, hkey, hpre, hdec, ho, rfl, rfl, rfl⟩
  · rintro ⟨key, hkey, hpre, hdec, ho, hs, hd, hp⟩
    obtain ⟨c, d, sp, dp, p⟩ := f
    simp only at hs hd hp ho hdec
    subst hs hd hp
    have hdec' : decodeProxySrc t.src ⟨t.srcPort, t.dstPort, t.proto.number⟩ key = some (c, d) :=
      hdec
    simp only [resolve, hkey, if_pos hpre, hdec', if_pos ho]

/-- Publishing and resolving are inverse: the codec is exact and the origin is
checked against the same entry that chose it. -/
theorem resolve_iff_publish (m : Maps) (f : Flow) (t : Tuple) :
    m.resolve t = some f ↔ m.publish f = some t := by
  rw [resolve_eq_some_iff, publish_eq_some_iff]
  constructor
  · rintro ⟨key, hkey, hpre, hdec, ho, hs, hd, hp⟩
    refine ⟨key, t.src, t.dst, hkey, ho, ?_, ?_⟩
    · exact (decode_iff_encode t.src hpre f.ctx key f.clientId f.domainId).mp hdec
    · rw [hs, hd, hp]
  · rintro ⟨key, a, o, hkey, ho, ha, rfl⟩
    exact ⟨key, hkey, hasPrefix_of_encode ha, decode_of_encode ha, ho, rfl, rfl, rfl⟩

def pairing (m : Maps) : Flow ≃. Tuple where
  toFun := m.publish
  invFun := m.resolve
  inv := m.resolve_iff_publish

theorem mem_pairing_iff {m : Maps} {f : Flow} {t : Tuple} :
    t ∈ m.pairing f ↔ m.publish f = some t := Iff.rfl

theorem mem_pairing_symm_iff {m : Maps} {f : Flow} {t : Tuple} :
    f ∈ m.pairing.symm t ↔ m.publish f = some t :=
  m.pairing.mem_iff_mem

end Maps

end PrototypeNet
