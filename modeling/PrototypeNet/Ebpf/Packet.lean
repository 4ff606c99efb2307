import PrototypeNet.Ebpf.Programs

/-!
# Packets and the helpers run on them

`Carries` says what a packet is to an observer: how it is framed, and which
addresses, ports and protocol its headers hold.  The lemmas evaluate each
helper and each parsing step of the programs on such a packet, so that no
later proof opens a helper again.
-/

namespace PrototypeNet

open ByteWords Buffer Fallible

/-! ## Framing and headers -/

inductive L4Proto
  | tcp
  | udp
  deriving DecidableEq, Repr

namespace L4Proto

def number : L4Proto → Byte
  | tcp => 6
  | udp => 17

def hdrLen : L4Proto → ℕ
  | tcp => tcpHdrLen
  | udp => udpHdrLen

def toIpProto : L4Proto → IpProto
  | tcp => .tcp
  | udp => .udp

@[simp] theorem ofByte_number (p : L4Proto) : IpProto.ofByte p.number = p.toIpProto := by
  cases p <;> rfl

@[simp] theorem protoNum_toIpProto (p : L4Proto) : protoNum p.toIpProto = p.number := by
  cases p <;> rfl

end L4Proto

structure Tuple where
  src : Ipv6Addr
  dst : Ipv6Addr
  srcPort : BitVec 16
  dstPort : BitVec 16
  proto : L4Proto
  deriving DecidableEq, Repr

def Tuple.mirror (t : Tuple) : Tuple :=
  ⟨t.dst, t.src, t.dstPort, t.srcPort, t.proto⟩

/-- An IPv6 header at `off`, directly followed by a complete TCP or UDP
header; everything else in the packet is arbitrary. -/
structure HeaderAt (off : ℕ) (t : Tuple) (d : List Byte) : Prop where
  complete : off + ipv6HdrLen + t.proto.hdrLen ≤ d.length
  nextHdr : window d (off + 6) 1 = [t.proto.number]
  src : window d (off + 8) 16 = t.src.toList
  dst : window d (off + 24) 16 = t.dst.toList
  srcPort : window d (off + ipv6HdrLen) 2 = (toBeBytes 2 t.srcPort).toList
  dstPort : window d (off + ipv6HdrLen + 2) 2 = (toBeBytes 2 t.dstPort).toList

theorem headerAt_iff (off : ℕ) (t : Tuple) (d : List Byte) :
    HeaderAt off t d ↔
      off + ipv6HdrLen + t.proto.hdrLen ≤ d.length ∧
        window d (off + 6) 1 = [t.proto.number] ∧
        window d (off + 8) 16 = t.src.toList ∧
        window d (off + 24) 16 = t.dst.toList ∧
        window d (off + ipv6HdrLen) 2 = (toBeBytes 2 t.srcPort).toList ∧
        window d (off + ipv6HdrLen + 2) 2 = (toBeBytes 2 t.dstPort).toList :=
  ⟨fun h ↦ ⟨h.1, h.2, h.3, h.4, h.5, h.6⟩, fun ⟨h₁, h₂, h₃, h₄, h₅, h₆⟩ ↦ ⟨h₁, h₂, h₃, h₄, h₅, h₆⟩⟩

instance (off : ℕ) (t : Tuple) (d : List Byte) : Decidable (HeaderAt off t d) :=
  decidable_of_iff _ (headerAt_iff off t d).symm

inductive Framing
  | rawIpv6
  | ethernet
  deriving DecidableEq, Repr

namespace Framing

def offset : Framing → ℕ
  | rawIpv6 => 0
  | ethernet => ethHdrLen

end Framing

def firstNibble (d : List Byte) : Option Byte :=
  d[0]?.map fun b : Byte ↦ b >>> 4

/-- An Ethernet header of type IPv6, whatever the two MAC addresses are. -/
def IsEthernetIpv6 (d : List Byte) : Prop :=
  window d 12 2 = etherTypeIpv6.toList

instance (d : List Byte) : Decidable (IsEthernetIpv6 d) :=
  inferInstanceAs (Decidable (window d 12 2 = etherTypeIpv6.toList))

/-- The framing `ipv6_offset` recognises. -/
def Framing.Matches : Framing → List Byte → Prop
  | rawIpv6, d => firstNibble d = some 6
  | ethernet, d => firstNibble d ≠ some 6 ∧ IsEthernetIpv6 d

instance : (f : Framing) → (d : List Byte) → Decidable (f.Matches d)
  | .rawIpv6, d => inferInstanceAs (Decidable (firstNibble d = some 6))
  | .ethernet, d => inferInstanceAs (Decidable (firstNibble d ≠ some 6 ∧ IsEthernetIpv6 d))

/-- A packet framed as `f` whose headers hold the tuple `t`. -/
def Carries (f : Framing) (t : Tuple) (d : List Byte) : Prop :=
  f.Matches d ∧ HeaderAt f.offset t d

instance (f : Framing) (t : Tuple) (d : List Byte) : Decidable (Carries f t d) :=
  inferInstanceAs (Decidable (f.Matches d ∧ HeaderAt f.offset t d))

theorem IsEthernetIpv6.length_le {d : List Byte} (h : IsEthernetIpv6 d) : 14 ≤ d.length := by
  have hlen : (window d 12 2).length = 2 := by
    rw [h]
    rfl
  rw [window, List.length_take, List.length_drop] at hlen
  omega

/-! ## Helpers -/

theorem exec_ptrAt_ok {size off : ℕ} {s : Ctx} (h : off + size ≤ s.data.length) :
    exec (ptrAt size off) s = (.ok off, s) := by
  rw [ptrAt, exec_bind_of_ok (exec_get s), if_neg (by omega), exec_pure]

theorem exec_ptrAt_err {size off : ℕ} {s : Ctx} (h : s.data.length < off + size) :
    exec (ptrAt size off) s = (.error .err, s) := by
  rw [ptrAt, exec_bind_of_ok (exec_get s), if_pos (by omega), exec_throw]

theorem exec_deref {n ptr : ℕ} {s : Ctx} {v : Vector Byte n}
    (hb : ptr + n ≤ s.data.length) (h : window s.data ptr n = v.toList) :
    exec (deref n ptr) s = (.ok v, s) := by
  have hv : (⟨⟨window s.data ptr n⟩, length_window s.data ptr n hb⟩ : Vector Byte n) = v := by
    apply Vector.toList_inj.mp
    exact h
  rw [deref, exec_bind_of_ok (exec_get s), dif_pos hb, exec_pure, hv]

theorem exists_window {n ptr : ℕ} {d : List Byte} (hb : ptr + n ≤ d.length) :
    ∃ v : Vector Byte n, window d ptr n = v.toList :=
  ⟨⟨⟨window d ptr n⟩, length_window d ptr n hb⟩, rfl⟩

theorem exec_load {off : ℕ} {b : Byte} {s : Ctx} (h : s.data[off]? = some b) :
    exec (load off) s = (.ok b, s) := by
  rw [load, exec_bind_of_ok (exec_get s), h, exec_pure]

theorem exec_store {off : ℕ} {b : Byte} {s : Ctx} (h : off < s.data.length) :
    exec (store off b) s = (.ok (), { s with data := s.data.set off b }) := by
  rw [store, exec_bind_of_ok (exec_get s), if_pos h]
  exact exec_set _ s

theorem exec_storeAll (bs : List Byte) {off : ℕ} {s : Ctx}
    (h : off + bs.length ≤ s.data.length) :
    exec (storeAll off bs) s = (.ok (), { s with data := patch s.data off bs }) := by
  induction bs generalizing off s with
  | nil => rfl
  | cons b bs ih =>
      rw [List.length_cons] at h
      have hstore : off < s.data.length := by omega
      rw [storeAll, exec_bind_of_ok (exec_store hstore),
        ih (by simp only [List.length_set]; omega)]
      rfl

/-! ## Checksum updates -/

def csumPatch (d : List Byte) (off : ℕ) (diff : BitVec 32) (markMangled0 : Bool) : List Byte :=
  match d[off]?, d[off + 1]? with
  | some b₀, some b₁ => patch d off (leBytes16 (csumReplace (leWord16 b₀ b₁) diff markMangled0))
  | _, _ => d

theorem length_leBytes16 (x : BitVec 16) : (leBytes16 x).length = 2 := by
  simp [leBytes16]

@[simp] theorem length_csumPatch (d : List Byte) (off : ℕ) (diff : BitVec 32) (m : Bool) :
    (csumPatch d off diff m).length = d.length := by
  unfold csumPatch
  split
  · exact length_patch _ _ _
  · rfl

theorem getElem?_csumPatch_of_disjoint (d : List Byte) (off : ℕ) (diff : BitVec 32) (m : Bool)
    {i : ℕ} (h : i < off ∨ off + 2 ≤ i) : (csumPatch d off diff m)[i]? = d[i]? := by
  unfold csumPatch
  split
  · apply getElem?_patch_of_disjoint
    rw [length_leBytes16]
    exact h
  · rfl

theorem window_csumPatch_of_disjoint (d : List Byte) (off : ℕ) (diff : BitVec 32) (m : Bool)
    {off' n : ℕ} (h : off' + n ≤ off ∨ off + 2 ≤ off') :
    window (csumPatch d off diff m) off' n = window d off' n := by
  apply window_congr
  intro i hi hi'
  exact getElem?_csumPatch_of_disjoint d off diff m (by omega)

/-- The checksum field at `off`, in the byte order of the target. -/
def csumField (d : List Byte) (off : ℕ) : BitVec 16 :=
  leWord16 (d[off]?.getD 0) (d[off + 1]?.getD 0)

theorem csumField_congr {d d' : List Byte} {off : ℕ} (h₀ : d'[off]? = d[off]?)
    (h₁ : d'[off + 1]? = d[off + 1]?) : csumField d' off = csumField d off := by
  rw [csumField, csumField, h₀, h₁]

theorem leWord16_leBytes16 (x : BitVec 16) :
    ∃ b₀ b₁, leBytes16 x = [b₀, b₁] ∧ leWord16 b₀ b₁ = x := by
  let v : Vector Byte 2 := toBeBytes 2 x
  refine ⟨v[1]!, v[0]!, ?_, ?_⟩
  · have hv : v.toList = [v[0]!, v[1]!] := by
      rw [← vector2_eta v]
      rfl
    rw [leBytes16, hv]
    rfl
  · rw [leWord16, vector2_eta]
    exact fromBeBytes_toBeBytes (by norm_num) x

/-- A checksum update does to the field what the kernel says, and the field
holds the result. -/
theorem csumField_csumPatch {d : List Byte} {off : ℕ} (h : off + 2 ≤ d.length) (diff : BitVec 32)
    (m : Bool) : csumField (csumPatch d off diff m) off = csumReplace (csumField d off) diff m := by
  have h₀ : d[off]? = some d[off] := List.getElem?_eq_getElem (by omega)
  have h₁ : d[off + 1]? = some d[off + 1] := List.getElem?_eq_getElem (by omega)
  have hfield : csumField d off = leWord16 d[off] d[off + 1] := by
    rw [csumField, h₀, h₁, Option.getD_some, Option.getD_some]
  obtain ⟨b₀, b₁, hbytes, hword⟩ := leWord16_leBytes16 (csumReplace (csumField d off) diff m)
  have hpatch : csumPatch d off diff m = patch d off [b₀, b₁] := by
    rw [← hbytes, hfield, csumPatch, h₀, h₁]
  have hr₀ : (patch d off [b₀, b₁])[off]? = some b₀ :=
    getElem?_patch (i := 0) d [b₀, b₁] h (by simp)
  have hr₁ : (patch d off [b₀, b₁])[off + 1]? = some b₁ :=
    getElem?_patch (i := 1) d [b₀, b₁] h (by simp)
  rw [hpatch, csumField, hr₀, hr₁, Option.getD_some, Option.getD_some, hword]

theorem exec_l4CsumReplace {off : ℕ} {diff : BitVec 32} {m : Bool} {s : Ctx}
    (hmax : off ≤ 0xffff) (heven : off % 2 = 0) (hb : off + 2 ≤ s.data.length) :
    exec (l4CsumReplace off diff m) s =
      (.ok (), { s with data := csumPatch s.data off diff m }) := by
  have h₀ : s.data[off]? = some s.data[off] := List.getElem?_eq_getElem (by omega)
  have h₁ : s.data[off + 1]? = some s.data[off + 1] := List.getElem?_eq_getElem (by omega)
  rw [l4CsumReplace, exec_bind_of_ok (exec_get s), if_neg (by omega), csumPatch, h₀, h₁]
  exact exec_set _ s

theorem exec_updateAddrCsum {off : ℕ} {old new : Ipv6Addr} {s : Ctx}
    (hmax : off ≤ 0xffff) (heven : off % 2 = 0) (hb : off + 2 ≤ s.data.length) :
    exec (updateAddrCsum off old new) s =
      (.ok (), { s with data := csumPatch s.data off (bpfCsumDiff old new 0) false }) :=
  exec_l4CsumReplace hmax heven hb

/-! ## Parsing -/

theorem not_version6 {d : List Byte} {b : Byte} (hb : d[0]? = some b)
    (hn : firstNibble d ≠ some 6) : ¬ b >>> 4 = 6 := by
  intro h6
  apply hn
  rw [firstNibble, hb, Option.map_some, h6]

/-- Where the framing puts the IPv6 header is where the programs look. -/
theorem exec_ipv6Offset {f : Framing} {s : Ctx} (h : f.Matches s.data) :
    exec ipv6Offset s = (.ok f.offset, s) := by
  cases f with
  | rawIpv6 =>
      obtain ⟨b, hb, hn⟩ := Option.map_eq_some_iff.mp h
      rw [ipv6Offset, exec_bind_of_ok (exec_load hb), if_pos hn, exec_pure]
      rfl
  | ethernet =>
      obtain ⟨hn, hty⟩ := h
      have hlen := hty.length_le
      have hb : s.data[0]? = some s.data[0] := List.getElem?_eq_getElem (by omega)
      have hptr : exec (ptrAt ethHdrLen 0) s = (.ok 0, s) := by
        apply exec_ptrAt_ok
        simpa [ethHdrLen] using hlen
      have hty' : exec (etherType 0) s = (.ok etherTypeIpv6, s) := exec_deref (by omega) hty
      rw [ipv6Offset, exec_bind_of_ok (exec_load hb), if_neg (not_version6 hb hn),
        exec_bind_of_ok hptr, exec_bind_of_ok hty', if_neg (by simp), exec_pure]
      rfl

theorem exec_ipv6Offset_err {s : Ctx} (h : ∀ f : Framing, ¬ f.Matches s.data) :
    exec ipv6Offset s = (.error .err, s) := by
  cases hb : s.data[0]? with
  | none =>
      have hload : exec (load 0) s = (.error .err, s) := by
        rw [load, exec_bind_of_ok (exec_get s), hb, exec_throw]
      rw [ipv6Offset, exec_bind_of_error hload]
  | some b =>
      have hn : firstNibble s.data ≠ some 6 := h .rawIpv6
      rw [ipv6Offset, exec_bind_of_ok (exec_load hb), if_neg (not_version6 hb hn)]
      by_cases hlen : 14 ≤ s.data.length
      · obtain ⟨ty, hty⟩ : ∃ ty : Vector Byte 2, window s.data 12 2 = ty.toList :=
          exists_window (by omega)
        have hty' : exec (etherType 0) s = (.ok ty, s) := exec_deref (by omega) hty
        have hne : ty ≠ etherTypeIpv6 := by
          rintro rfl
          exact h .ethernet ⟨hn, hty⟩
        rw [exec_bind_of_ok (exec_ptrAt_ok (by simpa [ethHdrLen] using hlen)), exec_bind_of_ok hty',
          if_pos hne, exec_throw]
      · rw [exec_bind_of_error (exec_ptrAt_err (by simpa [ethHdrLen] using hlen))]

theorem exec_portFields {base : ℕ} {s : Ctx} {sp dp : BitVec 16}
    (hb : base + 4 ≤ s.data.length)
    (hs : window s.data base 2 = (toBeBytes 2 sp).toList)
    (hd : window s.data (base + 2) 2 = (toBeBytes 2 dp).toList) :
    exec (portFields base) s = (.ok (sp, dp), s) := by
  rw [portFields, exec_bind_of_ok (exec_deref (by omega) hs),
    exec_bind_of_ok (exec_deref (by omega) hd), exec_pure,
    fromBeBytes_toBeBytes (by norm_num), fromBeBytes_toBeBytes (by norm_num)]

section Header

variable {off : ℕ} {t : Tuple} {s : Ctx}

theorem L4Proto.udpHdrLen_le_hdrLen (p : L4Proto) : 8 ≤ p.hdrLen := by
  cases p <;> decide

theorem HeaderAt.length_le {d : List Byte} (h : HeaderAt off t d) : off + 48 ≤ d.length := by
  have h₁ := h.complete
  have h₂ := t.proto.udpHdrLen_le_hdrLen
  rw [ipv6HdrLen] at h₁
  omega

theorem HeaderAt.exec_ptrAt (h : HeaderAt off t s.data) :
    exec (ptrAt ipv6HdrLen off) s = (.ok off, s) := by
  have hlen := h.length_le
  apply exec_ptrAt_ok
  rw [ipv6HdrLen]
  omega

theorem HeaderAt.exec_nextHdr (h : HeaderAt off t s.data) :
    exec (PrototypeNet.nextHdr off) s = (.ok t.proto.toIpProto, s) := by
  have hlen := h.length_le
  have hread : exec (deref 1 (off + 6)) s = (.ok #v[t.proto.number], s) :=
    exec_deref (by omega) h.nextHdr
  rw [PrototypeNet.nextHdr, exec_bind_of_ok hread, exec_pure]
  change (Except.ok (IpProto.ofByte t.proto.number), s) = _
  rw [L4Proto.ofByte_number]

theorem HeaderAt.exec_srcAddr (h : HeaderAt off t s.data) :
    exec (srcAddr off) s = (.ok t.src, s) := by
  have hlen := h.length_le
  exact exec_deref (by omega) h.src

theorem HeaderAt.exec_dstAddr (h : HeaderAt off t s.data) :
    exec (dstAddr off) s = (.ok t.dst, s) := by
  have hlen := h.length_le
  exact exec_deref (by omega) h.dst

theorem HeaderAt.exec_extractL4Ports (h : HeaderAt off t s.data) :
    exec (extractL4Ports (off + ipv6HdrLen) t.proto.toIpProto) s =
      (.ok (t.srcPort, t.dstPort), s) := by
  have hlen := h.length_le
  have hports : exec (portFields (off + ipv6HdrLen)) s = (.ok (t.srcPort, t.dstPort), s) :=
    exec_portFields (by rw [ipv6HdrLen]; omega) h.srcPort h.dstPort
  have hc := h.complete
  cases hp : t.proto <;> rw [hp] at hc
  · exact (exec_bind_of_ok (exec_ptrAt_ok hc)).trans hports
  · exact (exec_bind_of_ok (exec_ptrAt_ok hc)).trans hports

end Header

end PrototypeNet
