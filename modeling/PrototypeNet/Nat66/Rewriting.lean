import PrototypeNet.Nat66.Translation

/-!
# The writes of the two TC programs

Both programs end in the same kind of write: two addresses and the L4
checksum.  `Rewritten` says what such a write may do to a packet.  Every store
and checksum helper succeeds on a packet with complete headers, so each
program's writes go through as a whole.
-/

namespace PrototypeNet

open ByteWords Buffer Fallible

/-- `d'` is `d` with new addresses in the IPv6 header at `off`; besides these,
only the two checksum bytes at `csum` may differ. -/
structure Rewritten (off csum : ℕ) (src dst : Ipv6Addr) (d d' : List Byte) : Prop where
  length : d'.length = d.length
  src : window d' (off + 8) 16 = src.toList
  dst : window d' (off + 24) 16 = dst.toList
  same : ∀ i, i < off + 8 ∨ off + 40 ≤ i → i < csum ∨ csum + 2 ≤ i → d'[i]? = d[i]?

namespace Rewritten

variable {off csum : ℕ} {src dst : Ipv6Addr} {d d' : List Byte}

theorem of_patch_dst_src (h : off + 40 ≤ d.length) :
    Rewritten off csum src dst d
      (patch (patch d (off + 24) dst.toList) (off + 8) src.toList) where
  length := by simp
  src := window_patch_self _ _ _ Vector.length_toList (by rw [length_patch]; omega)
  dst := by
    rw [window_patch_of_disjoint _ _ _ (by simp),
      window_patch_self _ _ _ Vector.length_toList (by omega)]
  same := by
    intro i hi _
    rw [getElem?_patch_of_disjoint _ _ _ (by simp; omega),
      getElem?_patch_of_disjoint _ _ _ (by simp; omega)]

theorem of_patch_src_dst (h : off + 40 ≤ d.length) :
    Rewritten off csum src dst d
      (patch (patch d (off + 8) src.toList) (off + 24) dst.toList) where
  length := by simp
  src := by
    rw [window_patch_of_disjoint _ _ _ (by simp),
      window_patch_self _ _ _ Vector.length_toList (by omega)]
  dst := window_patch_self _ _ _ Vector.length_toList (by rw [length_patch]; omega)
  same := by
    intro i hi _
    rw [getElem?_patch_of_disjoint _ _ _ (by simp; omega),
      getElem?_patch_of_disjoint _ _ _ (by simp; omega)]

/-- A checksum update behind the IPv6 header stays within the allowance. -/
theorem csumPatch (h : Rewritten off csum src dst d d') (hc : off + 40 ≤ csum)
    (diff : BitVec 32) (m : Bool) :
    Rewritten off csum src dst d (PrototypeNet.csumPatch d' csum diff m) where
  length := by rw [length_csumPatch, h.length]
  src := by rw [window_csumPatch_of_disjoint _ _ _ _ (by omega), h.src]
  dst := by rw [window_csumPatch_of_disjoint _ _ _ _ (by omega), h.dst]
  same := by
    intro i hi hi'
    rw [getElem?_csumPatch_of_disjoint _ _ _ _ hi', h.same i hi hi']

theorem window_same (h : Rewritten off csum src dst d d') {o n : ℕ}
    (h₁ : o + n ≤ off + 8 ∨ off + 40 ≤ o) (h₂ : o + n ≤ csum ∨ csum + 2 ≤ o) :
    window d' o n = window d o n := by
  apply window_congr
  intro i hi hi'
  exact h.same i (by omega) (by omega)

end Rewritten

/-! ## Where the checksum lies -/

def csumOf (f : Framing) (p : L4Proto) : ℕ :=
  l4CsumOffset (f.offset + ipv6HdrLen) p.toIpProto

theorem l4CsumOffset_eq_csumOf (f : Framing) (p : L4Proto) :
    l4CsumOffset (f.offset + ipv6HdrLen) p.toIpProto = csumOf f p := rfl

theorem csumOf_bounds (f : Framing) (p : L4Proto) :
    f.offset + 46 ≤ csumOf f p ∧ csumOf f p + 2 ≤ f.offset + ipv6HdrLen + p.hdrLen ∧
      csumOf f p ≤ 0xffff ∧ csumOf f p % 2 = 0 := by
  cases f <;> cases p <;> decide

theorem Carries.csum_le {f : Framing} {t : Tuple} {d : List Byte} (h : Carries f t d) :
    csumOf f t.proto + 2 ≤ d.length :=
  (csumOf_bounds f t.proto).2.1.trans h.2.complete

/-- The rewritten packet is framed as before and carries the new addresses
with the old ports and protocol. -/
theorem Rewritten.carries {f : Framing} {t : Tuple} {src dst : Ipv6Addr} {d d' : List Byte}
    (hr : Rewritten f.offset (csumOf f t.proto) src dst d d') (h : Carries f t d) :
    Carries f ⟨src, dst, t.srcPort, t.dstPort, t.proto⟩ d' := by
  obtain ⟨hcsum, -, -, -⟩ := csumOf_bounds f t.proto
  obtain ⟨hm, hh⟩ := h
  have hports : ipv6HdrLen = 40 := rfl
  refine ⟨?_, ?_⟩
  · have hnib : firstNibble d' = firstNibble d := by
      rw [firstNibble, firstNibble, hr.same 0 (by omega) (by omega)]
    cases f with
    | rawIpv6 => exact hnib.trans hm
    | ethernet =>
        refine ⟨by rw [hnib]; exact hm.1, ?_⟩
        have hw := hr.window_same (o := 12) (n := 2) (by simp [Framing.offset, ethHdrLen])
          (by simp only [Framing.offset, ethHdrLen] at hcsum; omega)
        exact hw.trans hm.2
  · exact
    { complete := by
        rw [hr.length]
        exact hh.complete
      nextHdr := by
        rw [hr.window_same (by omega) (by omega)]
        exact hh.nextHdr
      src := hr.src
      dst := hr.dst
      srcPort := by
        rw [hr.window_same (by omega) (by omega)]
        exact hh.srcPort
      dstPort := by
        rw [hr.window_same (by omega) (by omega)]
        exact hh.dstPort }

/-! ## What the dev-mode build adds -/

namespace Maps

/-- The WAN address a dev-mode build translates to; a production build, or a
dev-mode build without one, translates to proxy-source addresses. -/
def devWan (build : Build) (m : Maps) : Option Ipv6Addr :=
  if build = .devMode ∧ m.devWanIpv6[0]! ≠ Vector.replicate 16 0 then some m.devWanIpv6[0]!
  else none

end Maps

/-- The tracking key of a public tuple: what identifies a reply to it. -/
def Tuple.replyKey (t : Tuple) : ReplyTrackKey :=
  ⟨t.dst, toBe16 t.dstPort, toBe16 t.srcPort, t.proto.number⟩

namespace Maps

/-- Remember which proxy-source address the WAN address stands for. -/
def track (build : Build) (m : Maps) (t : Tuple) (a : Ipv6Addr) : Maps :=
  if build = .devMode ∧ m.devWanIpv6[0]! ≠ Vector.replicate 16 0 then
    { m with replyTrack := (m.replyTrack.insert t.replyKey ⟨a⟩).getD m.replyTrack }
  else m

end Maps

/-- The checksum delta `tc_ingress_wan` adds in a dev-mode build. -/
def devCsumPatch (wan : Option Ipv6Addr) (csum : ℕ) (dst : Ipv6Addr) (d : List Byte) : List Byte :=
  match wan with
  | some w => csumPatch d csum (bpfCsumDiff w dst 0) false
  | none => d

@[simp] theorem length_devCsumPatch (wan : Option Ipv6Addr) (csum : ℕ) (dst : Ipv6Addr)
    (d : List Byte) : (devCsumPatch wan csum dst d).length = d.length := by
  cases wan with
  | none => rfl
  | some w => exact length_csumPatch _ _ _ _

/-! ## The writes go through -/

section Writes

variable {f : Framing} {t : Tuple} {s : Ctx}

theorem exec_storeAddr {off : ℕ} {a : Ipv6Addr} {s : Ctx} (h : off + 16 ≤ s.data.length) :
    exec (storeAll off a.toList) s = (.ok (), { s with data := patch s.data off a.toList }) :=
  exec_storeAll a.toList (by rw [Vector.length_toList]; exact h)

theorem exec_updateAddrCsum_of_length {d : List Byte} (h : Carries f t d)
    (hlen : s.data.length = d.length) (old new : Ipv6Addr) :
    exec (updateAddrCsum (csumOf f t.proto) old new) s =
      (.ok (), { s with
        data := csumPatch s.data (csumOf f t.proto) (bpfCsumDiff old new 0) false }) := by
  obtain ⟨-, -, hmax, heven⟩ := csumOf_bounds f t.proto
  exact exec_updateAddrCsum hmax heven (by rw [hlen]; exact h.csum_le)

theorem exec_finalSrc (build : Build) (a : Ipv6Addr) (t : Tuple) (s : Ctx) :
    exec (finalSrc build a t.dst t.srcPort t.dstPort t.proto.number) s =
      (.ok ((s.maps.devWan build).getD a), { s with maps := s.maps.track build t a }) := by
  cases build with
  | production => rfl
  | devMode =>
      have hwan : s.maps.devWanIpv6[0]? = some s.maps.devWanIpv6[0]! := by simp
      rw [finalSrc, exec_bind_of_ok (exec_get s), hwan]
      by_cases hz : s.maps.devWanIpv6[0]! ≠ Vector.replicate 16 0
      · rw [Maps.devWan, if_pos ⟨rfl, hz⟩, Maps.track, if_pos ⟨rfl, hz⟩]
        simp only [if_pos hz]
        exact exec_bind_of_ok (exec_modify _ s)
      · rw [Maps.devWan, if_neg (fun h ↦ hz h.2), Maps.track, if_neg (fun h ↦ hz h.2)]
        simp only [if_neg hz]
        rfl

/-- The bytes of a packet after the writes of `tc_ingress`. -/
def outboundBytes (f : Framing) (t : Tuple) (src origin : Ipv6Addr) (d : List Byte) : List Byte :=
  let stored := patch (patch d (f.offset + 24) origin.toList) (f.offset + 8) src.toList
  let updated := csumPatch stored (csumOf f t.proto) (bpfCsumDiff t.src src 0) false
  csumPatch updated (csumOf f t.proto) (bpfCsumDiff t.dst origin 0) false

theorem rewritten_outboundBytes {d : List Byte} (h : Carries f t d) (src o : Ipv6Addr) :
    Rewritten f.offset (csumOf f t.proto) src o d (outboundBytes f t src o d) := by
  have hlen := h.2.length_le
  obtain ⟨hcsum, -, -, -⟩ := csumOf_bounds f t.proto
  exact ((Rewritten.of_patch_dst_src (by omega)).csumPatch (by omega) _ _).csumPatch (by omega) _ _

/-- The writes of `tc_ingress` go through as a whole. -/
theorem exec_tcIngressRewrite (build : Build) (h : Carries f t s.data) (o a : Ipv6Addr) :
    exec (tcIngressRewrite build f.offset t.proto.toIpProto t.src t.dst o a t.srcPort t.dstPort) s =
      (.ok .ok, ⟨outboundBytes f t ((s.maps.devWan build).getD a) o s.data,
        s.maps.track build ⟨a, o, t.srcPort, t.dstPort, t.proto⟩ a⟩) := by
  have hlen := h.2.length_le
  have hfinal := exec_finalSrc build a ⟨a, o, t.srcPort, t.dstPort, t.proto⟩
    { s with data := patch s.data (f.offset + 24) o.toList }
  simp only [tcIngressRewrite, l4CsumOffset_eq_csumOf, L4Proto.protoNum_toIpProto]
  rw [exec_bind_of_ok (exec_storeAddr (by omega)), exec_bind_of_ok hfinal,
    exec_bind_of_ok (exec_storeAddr (by simp only [length_patch]; omega)),
    exec_bind_of_ok (exec_updateAddrCsum_of_length h (by simp only [length_patch]) _ _),
    exec_bind_of_ok (exec_updateAddrCsum_of_length h
      (by simp only [length_csumPatch, length_patch]) _ _), exec_pure]
  rfl

/-! ## The writes of `tc_ingress_wan` -/

theorem exec_devWanCsum (build : Build) {d : List Byte} (h : Carries f t d)
    (hlen : s.data.length = d.length) (dst : Ipv6Addr) :
    exec (devWanCsum build (csumOf f t.proto) dst) s =
      (.ok (), { s with
        data := devCsumPatch (s.maps.devWan build) (csumOf f t.proto) dst s.data }) := by
  cases build with
  | production => rfl
  | devMode =>
      have hwan : s.maps.devWanIpv6[0]? = some s.maps.devWanIpv6[0]! := by simp
      rw [devWanCsum, exec_bind_of_ok (exec_get s), hwan]
      by_cases hz : s.maps.devWanIpv6[0]! ≠ Vector.replicate 16 0
      · rw [Maps.devWan, if_pos ⟨rfl, hz⟩]
        simp only [if_pos hz]
        exact exec_updateAddrCsum_of_length h hlen _ _
      · rw [Maps.devWan, if_neg (fun h ↦ hz h.2)]
        simp only [if_neg hz]
        rfl

/-- The bytes of a packet after the writes of `tc_ingress_wan`. -/
def returnBytes (f : Framing) (t : Tuple) (wan : Option Ipv6Addr) (synthetic client : Ipv6Addr)
    (d : List Byte) : List Byte :=
  let csum := csumOf f t.proto
  let stored := patch (patch d (f.offset + 8) synthetic.toList) (f.offset + 24) client.toList
  let updated := csumPatch (csumPatch stored csum (bpfCsumDiff t.src synthetic 0) false)
    csum (bpfCsumDiff t.dst client 0) false
  csumPatch (devCsumPatch wan csum t.dst updated) csum 0 true

theorem rewritten_returnBytes {d : List Byte} (h : Carries f t d) (wan : Option Ipv6Addr)
    (synthetic client : Ipv6Addr) :
    Rewritten f.offset (csumOf f t.proto) synthetic client d
      (returnBytes f t wan synthetic client d) := by
  have hlen := h.2.length_le
  obtain ⟨hcsum, -, -, -⟩ := csumOf_bounds f t.proto
  have hstored : Rewritten f.offset (csumOf f t.proto) synthetic client d
      (patch (patch d (f.offset + 8) synthetic.toList) (f.offset + 24) client.toList) :=
    Rewritten.of_patch_src_dst (by omega)
  have hupdated := (hstored.csumPatch (by omega) (bpfCsumDiff t.src synthetic 0) false).csumPatch
    (by omega) (bpfCsumDiff t.dst client 0) false
  cases wan with
  | none => exact hupdated.csumPatch (by omega) _ _
  | some w => exact (hupdated.csumPatch (by omega) _ _).csumPatch (by omega) _ _

/-- The writes of `tc_ingress_wan` succeed as a whole; the packet is then
redirected, or dropped when no tunnel interface is set. -/
theorem exec_tcIngressWanRewrite (build : Build) (h : Carries f t s.data)
    (synthetic client : Ipv6Addr) :
    exec (tcIngressWanRewrite build f.offset t.proto.toIpProto t.src t.dst synthetic client) s =
      (.ok (if s.maps.xfrmIfindex[0]! ≠ 0 then .redirect s.maps.xfrmIfindex[0]! else .shot),
        { s with data := returnBytes f t (s.maps.devWan build) synthetic client s.data }) := by
  have hlen := h.2.length_le
  obtain ⟨hcsum, -, hmax, heven⟩ := csumOf_bounds f t.proto
  have hidx : s.maps.xfrmIfindex[0]? = some s.maps.xfrmIfindex[0]! := by simp
  simp only [tcIngressWanRewrite, l4CsumOffset_eq_csumOf]
  rw [exec_bind_of_ok (exec_storeAddr (by omega)),
    exec_bind_of_ok (exec_storeAddr (by simp only [length_patch]; omega)),
    exec_bind_of_ok (exec_updateAddrCsum_of_length h (by simp only [length_patch]) _ _),
    exec_bind_of_ok (exec_updateAddrCsum_of_length h
      (by simp only [length_csumPatch, length_patch]) _ _),
    exec_bind_of_ok (exec_devWanCsum build h (by simp only [length_csumPatch, length_patch]) _),
    exec_bind_of_ok (exec_l4CsumReplace hmax heven
      (by simp only [length_devCsumPatch, length_csumPatch, length_patch]; exact h.csum_le)),
    exec_bind_of_ok (exec_get _)]
  simp only [hidx]
  split_ifs <;> rfl

end Writes

end PrototypeNet
