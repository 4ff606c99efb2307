import PrototypeNet.Nat66.Checksum
import PrototypeNet.Nat66.WanParsers

/-!
# What arrives on the WAN interface

A frame meets `xdp_wan` first and, if that passes it, `tc_ingress_wan`; it ends
up with the host, in the tunnel or nowhere.  Both programs let pass what they
cannot parse, so it is not obvious what the host can still receive.  Here the
fate of every frame is told from its bytes, for the production build.
-/

namespace PrototypeNet

open ByteWords Buffer Fallible

inductive WanFate
  | dropped
  | host (frame : List Byte)
  | tunnel (ifindex : BitVec 32) (frame : List Byte)
  deriving DecidableEq, Repr

/-- What the kernel does after `tc_ingress_wan`. -/
def tcFate : Except Abort TcAction × Ctx → Option (WanFate × Maps)
  | (.ok .ok, s) => some (.host s.data, s.maps)
  | (.ok .shot, s) => some (.dropped, s.maps)
  | (.ok (.redirect i), s) => some (.tunnel i s.data, s.maps)
  | (.error _, _) => none

/-- The two programs in the order in which the kernel runs them; `none` if one
of them leaves the packet's memory. -/
def wanPath (build : Build) (frame : List Byte) (m : Maps) : Option (WanFate × Maps) :=
  match exec (xdpWan build) ⟨frame, m⟩ with
  | (.ok .drop, s) => some (.dropped, s.maps)
  | (.ok .pass, s) => tcFate (exec (tcIngressWan build) s)
  | (.error _, _) => none

/-- A frame with a complete IPv6 header behind an Ethernet one passes only as
ICMPv6 or to a proxy-source address. -/
def PassesFilter (d : List Byte) : Prop :=
  IsEthernetIpv6 d → ethHdrLen + ipv6HdrLen ≤ d.length →
    window d (ethHdrLen + 6) 1 = [58] ∨ window d (ethHdrLen + 24) 4 = proxySrcPrefix.toList

instance (d : List Byte) : Decidable (PassesFilter d) :=
  inferInstanceAs (Decidable (_ → _ → _ ∨ _))

theorem ofByte_eq_ipv6Icmp_iff (b : Byte) : IpProto.ofByte b = .ipv6Icmp ↔ b = 58 := by
  unfold IpProto.ofByte
  split_ifs with h₆ h₁₇ h₅₈
  · subst h₆
    decide
  · subst h₁₇
    decide
  · exact iff_of_true rfl h₅₈
  · exact iff_of_false not_false h₅₈

theorem hasPrefix_iff_window {d : List Byte} {off : ℕ} {dst : Ipv6Addr} (pre : Vector Byte 4)
    (h : window d off 16 = dst.toList) : HasPrefix pre dst ↔ window d off 4 = pre.toList := by
  have hfour : window d off 4 = dst.toList.take 4 := by
    rw [← h, window, window, List.take_take]
    rfl
  rw [hfour, toList_addr, ← vector4_eta pre]
  simp [HasPrefix]

section Filter

variable {d : List Byte} {m : Maps}

theorem exec_xdpWan_of_ok {a : XdpAction}
    (h : exec (tryXdpWan .production) ⟨d, m⟩ = (.ok a, ⟨d, m⟩)) :
    exec (xdpWan .production) ⟨d, m⟩ = (.ok a, ⟨d, m⟩) :=
  exec_tryCatch_of_ok h

theorem exec_xdpWan_of_err (h : exec (tryXdpWan .production) ⟨d, m⟩ = (.error .err, ⟨d, m⟩)) :
    exec (xdpWan .production) ⟨d, m⟩ = (.ok .pass, ⟨d, m⟩) :=
  exec_tryCatch_of_error h

/-- What the filter makes of a frame with both headers. -/
theorem exec_tryXdpWan_of_header (hty : IsEthernetIpv6 d)
    (hlen : ethHdrLen + ipv6HdrLen ≤ d.length) :
    exec (tryXdpWan .production) ⟨d, m⟩ =
      (.ok (if PassesFilter d then .pass else .drop), ⟨d, m⟩) := by
  have h₅₄ : 54 ≤ d.length := hlen
  have hptr : exec (ptrAtXdp ethHdrLen 0) ⟨d, m⟩ = (.ok 0, ⟨d, m⟩) :=
    exec_ptrAt_ok (by simpa [ethHdrLen] using hty.length_le)
  have hread : exec (etherType 0) ⟨d, m⟩ = (.ok etherTypeIpv6, ⟨d, m⟩) :=
    exec_deref (by simpa using hty.length_le) hty
  have hhdr : exec (ptrAtXdp ipv6HdrLen ethHdrLen) ⟨d, m⟩ = (.ok ethHdrLen, ⟨d, m⟩) :=
    exec_ptrAt_ok hlen
  obtain ⟨nh, hnh⟩ : ∃ nh : Vector Byte 1, window d (ethHdrLen + 6) 1 = nh.toList :=
    exists_window (by rw [ethHdrLen]; omega)
  obtain ⟨dst, hdst⟩ : ∃ dst : Ipv6Addr, window d (ethHdrLen + 24) 16 = dst.toList :=
    exists_window (by rw [ethHdrLen]; omega)
  have hnext : exec (nextHdr ethHdrLen) ⟨d, m⟩ = (.ok (IpProto.ofByte nh[0]!), ⟨d, m⟩) := by
    rw [nextHdr, exec_bind_of_ok (exec_deref (by simp only [ethHdrLen]; omega) hnh), exec_pure]
  have haddr : exec (dstAddr ethHdrLen) ⟨d, m⟩ = (.ok dst, ⟨d, m⟩) :=
    exec_deref (by simp only [ethHdrLen]; omega) hdst
  have hicmp : window d (ethHdrLen + 6) 1 = [58] ↔ IpProto.ofByte nh[0]! = .ipv6Icmp := by
    rw [ofByte_eq_ipv6Icmp_iff, hnh, ← vector1_eta nh]
    simp
  have hfilter : PassesFilter d ↔
      IpProto.ofByte nh[0]! = .ipv6Icmp ∨ HasPrefix proxySrcPrefix dst := by
    rw [← hicmp, hasPrefix_iff_window _ hdst]
    exact ⟨fun h ↦ h hty hlen, fun h _ _ ↦ h⟩
  rw [tryXdpWan, exec_bind_of_ok hptr, exec_bind_of_ok hread, if_neg (by simp),
    exec_bind_of_ok hhdr, exec_bind_of_ok hnext]
  by_cases h₁ : IpProto.ofByte nh[0]! = .ipv6Icmp
  · rw [if_pos h₁, if_pos (hfilter.mpr (.inl h₁)), exec_pure]
  · rw [if_neg h₁, exec_bind_of_ok haddr]
    by_cases h₂ : HasPrefix proxySrcPrefix dst
    · rw [if_pos (hfilter.mpr (.inr h₂))]
      simp [h₂]
    · rw [if_neg (not_or.mpr ⟨h₁, h₂⟩ ∘ hfilter.mp)]
      simp [h₂]

/-- The filter decides as `PassesFilter` says and touches nothing. -/
theorem exec_xdpWan_production (d : List Byte) (m : Maps) :
    exec (xdpWan .production) ⟨d, m⟩ =
      (.ok (if PassesFilter d then .pass else .drop), ⟨d, m⟩) := by
  by_cases hv6 : IsEthernetIpv6 d
  · by_cases hlen : ethHdrLen + ipv6HdrLen ≤ d.length
    · exact exec_xdpWan_of_ok (exec_tryXdpWan_of_header hv6 hlen)
    · have hpass : PassesFilter d := fun _ h ↦ absurd h hlen
      have hptr : exec (ptrAtXdp ethHdrLen 0) ⟨d, m⟩ = (.ok 0, ⟨d, m⟩) :=
        exec_ptrAt_ok (by simpa [ethHdrLen] using hv6.length_le)
      have hread : exec (etherType 0) ⟨d, m⟩ = (.ok etherTypeIpv6, ⟨d, m⟩) :=
        exec_deref (by simpa using hv6.length_le) hv6
      have hhdr : exec (ptrAtXdp ipv6HdrLen ethHdrLen) ⟨d, m⟩ = (.error .err, ⟨d, m⟩) :=
        exec_ptrAt_err (Nat.lt_of_not_le hlen)
      rw [if_pos hpass]
      apply exec_xdpWan_of_err
      rw [tryXdpWan, exec_bind_of_ok hptr, exec_bind_of_ok hread, if_neg (by simp),
        exec_bind_of_error hhdr]
  · have hpass : PassesFilter d := fun h ↦ absurd h hv6
    rw [if_pos hpass]
    by_cases hlen : 14 ≤ d.length
    · have hptr : exec (ptrAtXdp ethHdrLen 0) ⟨d, m⟩ = (.ok 0, ⟨d, m⟩) :=
        exec_ptrAt_ok (by simpa [ethHdrLen] using hlen)
      obtain ⟨ty, hty⟩ : ∃ ty : Vector Byte 2, window d 12 2 = ty.toList :=
        exists_window (by omega)
      have hne : ty ≠ etherTypeIpv6 := by
        rintro rfl
        exact hv6 hty
      have hread : exec (etherType 0) ⟨d, m⟩ = (.ok ty, ⟨d, m⟩) :=
        exec_deref (by simpa using hlen) hty
      apply exec_xdpWan_of_ok
      rw [tryXdpWan, exec_bind_of_ok hptr, exec_bind_of_ok hread, if_pos hne, exec_pure]
    · have hptr : exec (ptrAtXdp ethHdrLen 0) ⟨d, m⟩ = (.error .err, ⟨d, m⟩) :=
        exec_ptrAt_err (by simpa [ethHdrLen] using hlen)
      apply exec_xdpWan_of_err
      rw [tryXdpWan, exec_bind_of_error hptr]

end Filter

/-! ## The fate of a frame -/

section Fate

variable {d : List Byte} {m : Maps}

theorem wanPath_of_filtered (h : ¬ PassesFilter d) :
    wanPath .production d m = some (.dropped, m) := by
  rw [wanPath, exec_xdpWan_production, if_neg h]

theorem wanPath_of_passes (h : PassesFilter d) :
    wanPath .production d m = tcFate (exec (tcIngressWan .production) ⟨d, m⟩) := by
  rw [wanPath, exec_xdpWan_production, if_pos h]

theorem passesFilter_iff_of_carries {t : Tuple} (h : Carries .ethernet t d) :
    PassesFilter d ↔ HasPrefix proxySrcPrefix t.dst := by
  have hlen : ethHdrLen + ipv6HdrLen ≤ d.length := by
    have := h.2.length_le
    simp only [ethHdrLen, ipv6HdrLen, Framing.offset] at this ⊢
    omega
  have hnot : window d (ethHdrLen + 6) 1 ≠ [58] := by
    have hnh : window d (ethHdrLen + 6) 1 = [t.proto.number] := h.2.nextHdr
    rw [hnh]
    cases t.proto <;> decide
  rw [hasPrefix_iff_window _ h.2.dst]
  exact ⟨fun hp ↦ (hp h.1.2 hlen).resolve_left hnot, fun hp _ _ ↦ .inr hp⟩

theorem Maps.hasPrefix_of_publish {flow : Flow} {pub : Tuple} (h : m.publish flow = some pub) :
    HasPrefix proxySrcPrefix pub.src := by
  obtain ⟨key, a, o, -, -, ha, rfl⟩ := (m.publish_eq_some_iff flow pub).mp h
  exact hasPrefix_of_encode ha

end Fate

/-- The host never receives a TCP or UDP frame: it goes into the tunnel as a
reply of its flow if it mirrors a published tuple, and is dropped if not. -/
theorem wan_tcp_udp_never_reaches_host (d : List Byte) (m : Maps) (t : Tuple)
    (h : Carries .ethernet t d) :
    (∃ flow d', m.publish flow = some t.mirror ∧ m.xfrmIfindex[0]! ≠ 0 ∧
        wanPath .production d m = some (.tunnel m.xfrmIfindex[0]! d', m) ∧
        Carries .ethernet flow.inner.mirror d') ∨
      (m.xfrmIfindex[0]! = 0 ∨ ∀ flow, m.publish flow ≠ some t.mirror) ∧
        wanPath .production d m = some (.dropped, m) := by
  by_cases hpub : ∃ flow, m.publish flow = some t.mirror
  · obtain ⟨flow, hpub⟩ := hpub
    have hpass := (passesFilter_iff_of_carries h).mpr (Maps.hasPrefix_of_publish hpub)
    obtain ⟨d', hexec, hd'⟩ := tcIngressWan_carries .production (s := ⟨d, m⟩) hpub h
    rw [wanPath_of_passes hpass, hexec]
    by_cases hif : m.xfrmIfindex[0]! = 0
    · refine .inr ⟨.inl hif, ?_⟩
      simp only [hif, ne_eq, not_true_eq_false, if_false]
      rfl
    · simp only [if_pos hif]
      exact .inl ⟨flow, d', hpub, hif, rfl, hd'⟩
  · refine .inr ⟨.inr (not_exists.mp hpub), ?_⟩
    by_cases hpre : HasPrefix proxySrcPrefix t.dst
    · have hres : m.resolve t.mirror = none := by
        rw [Option.eq_none_iff_forall_ne_some]
        intro flow hflow
        exact hpub ⟨flow, (m.resolve_iff_publish flow t.mirror).mp hflow⟩
      rw [wanPath_of_passes ((passesFilter_iff_of_carries h).mpr hpre),
        tcIngressWan_drops .production (s := ⟨d, m⟩) h hpre hres]
      rfl
    · exact wanPath_of_filtered (hpre ∘ (passesFilter_iff_of_carries h).mp)

theorem wan_tcp_udp_never_reaches_host_demo :
    ∃ d', wanPath .production demoReply demoMaps = some (.tunnel 5 d', demoMaps) := by
  have hpub : demoMaps.publish demoFlow = some ⟨demoAddr, demoOrigin, 50000, 443, .tcp⟩ :=
    publish_demoFlow (by decide)
  rcases wan_tcp_udp_never_reaches_host demoReply demoMaps
    ⟨demoOrigin, demoAddr, 443, 50000, .tcp⟩ (carries_packetOf _ _ []) with
    ⟨-, d', -, -, hpath, -⟩ | ⟨hno | hno, -⟩
  · exact ⟨d', hpath⟩
  · exact absurd hno (by decide)
  · exact absurd hpub (hno demoFlow)

/-- What the host does receive, always unchanged: the frames that pass the
filter and are not, in the reading of `tc_ingress_wan`, complete TCP or UDP
packets to a proxy-source address. -/
theorem wan_host_receives_iff (d d' : List Byte) (m m' : Maps) :
    wanPath .production d m = some (.host d', m') ↔
      d' = d ∧ m' = m ∧ PassesFilter d ∧
        ∀ f t, Carries f t d → ¬ HasPrefix proxySrcPrefix t.dst := by
  by_cases hpass : PassesFilter d
  · rw [wanPath_of_passes hpass]
    by_cases hreply : ∃ f t, Carries f t d ∧ HasPrefix proxySrcPrefix t.dst
    · obtain ⟨f, t, hc, hpre⟩ := hreply
      obtain ⟨a, s', hexec, hkept⟩ := tcIngressWan_keeps .production (s := ⟨d, m⟩) hc hpre
      rw [hexec]
      constructor
      · intro hhost
        rcases hkept with rfl | ⟨i, rfl⟩ <;> cases hhost
      · rintro ⟨-, -, -, hno⟩
        exact absurd hpre (hno f t hc)
    · have hok : exec (tcIngressWan .production) ⟨d, m⟩ = (.ok .ok, ⟨d, m⟩) :=
        (tcIngressWan_cases .production ⟨d, m⟩).resolve_right hreply
      rw [hok]
      constructor
      · rintro ⟨⟩
        exact ⟨rfl, rfl, hpass, fun f t hc hpre ↦ hreply ⟨f, t, hc, hpre⟩⟩
      · rintro ⟨rfl, rfl, -, -⟩
        rfl
  · rw [wanPath_of_filtered hpass]
    constructor
    · rintro ⟨⟩
    · rintro ⟨-, -, h, -⟩
      exact absurd h hpass

end PrototypeNet
