import PrototypeNet.Nat66.Rewriting

/-!
# The programs follow the pairing

On a packet with complete headers `tc_ingress` does what `publish` says and
`tc_ingress_wan` what `resolve` says; a packet without such headers is never
rewritten.  Everything later about the data plane is derived from these
statements and the pairing being a partial bijection.
-/

namespace PrototypeNet

open ByteWords Buffer Fallible

/-! ## The statements both programs begin with -/

/-- Find the IPv6 header, pass what is neither TCP nor UDP or not addressed to
the prefix, and hand the rest to `k`. -/
def withHeader (pre : Vector Byte 4) (k : ℕ → IpProto → Ipv6Addr → BpfM TcAction) :
    BpfM TcAction := do
  let ipOff ← ipv6Offset
  let ipv6hdr ← ptrAt ipv6HdrLen ipOff
  let nexthdr ← nextHdr ipv6hdr
  if nexthdr ≠ .tcp ∧ nexthdr ≠ .udp then pure .ok
  else do
    let dstIpv6 ← dstAddr ipv6hdr
    if ¬ HasPrefix pre dstIpv6 then pure .ok
    else k ipv6hdr nexthdr dstIpv6

theorem tryTcIngress_eq_withHeader (build : Build) :
    tryTcIngress build = withHeader syntheticPrefix (tcIngressTranslate build) := rfl

theorem tryTcIngressWan_eq_withHeader (build : Build) :
    tryTcIngressWan build = withHeader proxySrcPrefix (tcIngressWanTranslate build) := rfl

theorem L4Proto.not_other (p : L4Proto) : ¬ (p.toIpProto ≠ .tcp ∧ p.toIpProto ≠ .udp) := by
  cases p <;> simp [toIpProto]

theorem exists_number_of_ofByte {b : Byte}
    (h : ¬ (IpProto.ofByte b ≠ .tcp ∧ IpProto.ofByte b ≠ .udp)) :
    ∃ p : L4Proto, b = p.number := by
  by_cases h₆ : b = 6
  · exact ⟨.tcp, h₆⟩
  · by_cases h₁₇ : b = 17
    · exact ⟨.udp, h₁₇⟩
    · exfalso
      apply h
      rw [IpProto.ofByte, if_neg h₆, if_neg h₁₇]
      split_ifs <;> simp

section Header

variable {pre : Vector Byte 4} {k : ℕ → IpProto → Ipv6Addr → BpfM TcAction}
variable {f : Framing} {t : Tuple} {s : Ctx}

theorem exec_withHeader (h : Carries f t s.data) (hpre : HasPrefix pre t.dst) :
    exec (withHeader pre k) s = exec (k f.offset t.proto.toIpProto t.dst) s := by
  obtain ⟨hframe, hh⟩ := h
  rw [withHeader, exec_bind_of_ok (exec_ipv6Offset hframe), exec_bind_of_ok hh.exec_ptrAt,
    exec_bind_of_ok hh.exec_nextHdr, if_neg t.proto.not_other, exec_bind_of_ok hh.exec_dstAddr,
    if_neg (not_not.mpr hpre)]

/-- Either the packet is passed on as it is, or the IPv6 header is complete,
names TCP or UDP and is addressed to the prefix. -/
theorem exec_withHeader_cases (pre : Vector Byte 4)
    (k : ℕ → IpProto → Ipv6Addr → BpfM TcAction) (s : Ctx) :
    exec (withHeader pre k) s = (.error .err, s) ∨ exec (withHeader pre k) s = (.ok .ok, s) ∨
      ∃ (f : Framing) (p : L4Proto) (dst : Ipv6Addr), f.Matches s.data ∧
        f.offset + ipv6HdrLen ≤ s.data.length ∧
        window s.data (f.offset + 6) 1 = [p.number] ∧
        window s.data (f.offset + 24) 16 = dst.toList ∧ HasPrefix pre dst ∧
        exec (withHeader pre k) s = exec (k f.offset p.toIpProto dst) s := by
  by_cases hframe : ∃ f : Framing, f.Matches s.data
  · obtain ⟨f, hf⟩ := hframe
    by_cases hlen : f.offset + ipv6HdrLen ≤ s.data.length
    · have h₄₀ : f.offset + 40 ≤ s.data.length := hlen
      obtain ⟨nh, hnh⟩ : ∃ nh : Vector Byte 1, window s.data (f.offset + 6) 1 = nh.toList :=
        exists_window (by omega)
      obtain ⟨dst, hdst⟩ : ∃ dst : Ipv6Addr, window s.data (f.offset + 24) 16 = dst.toList :=
        exists_window (by omega)
      have hnext : exec (nextHdr f.offset) s = (.ok (IpProto.ofByte nh[0]!), s) := by
        rw [nextHdr, exec_bind_of_ok (exec_deref (by omega) hnh), exec_pure]
      rw [withHeader, exec_bind_of_ok (exec_ipv6Offset hf), exec_bind_of_ok (exec_ptrAt_ok hlen),
        exec_bind_of_ok hnext]
      by_cases hother : IpProto.ofByte nh[0]! ≠ .tcp ∧ IpProto.ofByte nh[0]! ≠ .udp
      · right
        left
        rw [if_pos hother, exec_pure]
      · obtain ⟨p, hp⟩ := exists_number_of_ofByte hother
        have hread : exec (dstAddr f.offset) s = (.ok dst, s) := exec_deref (by omega) hdst
        rw [if_neg hother, exec_bind_of_ok hread]
        by_cases hpre : HasPrefix pre dst
        · right
          right
          refine ⟨f, p, dst, hf, hlen, ?_, hdst, hpre, ?_⟩
          · rw [hnh, ← hp]
            exact congrArg Vector.toList (vector1_eta nh).symm
          · rw [if_neg (not_not.mpr hpre), hp, L4Proto.ofByte_number]
        · right
          left
          rw [if_pos hpre, exec_pure]
    · left
      rw [withHeader, exec_bind_of_ok (exec_ipv6Offset hf),
        exec_bind_of_error (exec_ptrAt_err (by omega))]
  · left
    rw [withHeader, exec_bind_of_error (exec_ipv6Offset_err (not_exists.mp hframe))]

theorem exists_carries {p : L4Proto} {dst : Ipv6Addr} {d : List Byte} (hf : f.Matches d)
    (hlen : f.offset + ipv6HdrLen + p.hdrLen ≤ d.length)
    (hnh : window d (f.offset + 6) 1 = [p.number])
    (hdst : window d (f.offset + 24) 16 = dst.toList) :
    ∃ t, Carries f t d ∧ t.proto = p ∧ t.dst = dst := by
  have hmin := p.udpHdrLen_le_hdrLen
  have h₄₈ : f.offset + 48 ≤ d.length := by
    rw [ipv6HdrLen] at hlen
    omega
  obtain ⟨src, hsrc⟩ : ∃ src : Ipv6Addr, window d (f.offset + 8) 16 = src.toList :=
    exists_window (by omega)
  obtain ⟨sp, hsp⟩ : ∃ sp : Vector Byte 2, window d (f.offset + ipv6HdrLen) 2 = sp.toList :=
    exists_window (by rw [ipv6HdrLen]; omega)
  obtain ⟨dp, hdp⟩ : ∃ dp : Vector Byte 2,
      window d (f.offset + ipv6HdrLen + 2) 2 = dp.toList :=
    exists_window (by rw [ipv6HdrLen]; omega)
  refine ⟨⟨src, dst, fromBeBytes 16 sp, fromBeBytes 16 dp, p⟩, ⟨hf, ?_⟩, rfl, rfl⟩
  exact
    { complete := hlen
      nextHdr := hnh
      src := hsrc
      dst := hdst
      srcPort := by rw [toBeBytes_fromBeBytes (by norm_num), hsp]
      dstPort := by rw [toBeBytes_fromBeBytes (by norm_num), hdp] }

theorem exec_extractL4Ports_err {base : ℕ} {p : L4Proto} (h : s.data.length < base + p.hdrLen) :
    exec (extractL4Ports base p.toIpProto) s = (.error .err, s) := by
  cases p with
  | tcp => exact exec_bind_of_error (exec_ptrAt_err h)
  | udp => exact exec_bind_of_error (exec_ptrAt_err h)

end Header

/-! ## Decisions -/

theorem Maps.getElem?_obfsKeys (m : Maps) : m.obfsKeys[0]? = some m.obfsKeys[0]! := by
  simp

theorem Maps.activeKey_of_isZero {m : Maps} (h : m.obfsKeys[0]!.isZero = true) :
    m.activeKey = none := by
  rw [activeKey, if_pos h]

theorem Maps.activeKey_of_not_isZero {m : Maps} (h : ¬ m.obfsKeys[0]!.isZero = true) :
    m.activeKey = some m.obfsKeys[0]! := by
  rw [activeKey, if_neg h]

section Decisions

variable {f : Framing} {t : Tuple} {s : Ctx}

theorem exec_tcIngressTranslate_of_none (build : Build) {off : ℕ} {nexthdr : IpProto}
    {dst : Ipv6Addr} (h : s.maps.natMap.get (domainIdFromIpv6 dst) = none) :
    exec (tcIngressTranslate build off nexthdr dst) s = (.ok .shot, s) := by
  rw [domainIdFromIpv6] at h
  rw [tcIngressTranslate, exec_bind_of_ok (exec_get s)]
  simp only [h, exec_pure]

/-- What `tc_ingress` decides about a packet to a synthetic address. -/
theorem exec_tryTcIngress (build : Build) (h : Carries f t s.data)
    (hpre : HasPrefix syntheticPrefix t.dst) :
    exec (tryTcIngress build) s =
      match s.maps.publish (Flow.ofInner t) with
      | none => (.ok .shot, s)
      | some pub => exec (tcIngressRewrite build f.offset t.proto.toIpProto t.src t.dst
          pub.dst pub.src t.srcPort t.dstPort) s := by
  have hh := h.2
  rw [tryTcIngress_eq_withHeader, exec_withHeader h hpre]
  cases hnat : s.maps.natMap.get (domainIdFromIpv6 t.dst) with
  | none =>
      have hpub : s.maps.publish (Flow.ofInner t) = none := by
        simp [Maps.publish, Maps.origin, Flow.ofInner, hnat]
      rw [exec_tcIngressTranslate_of_none build hnat, hpub]
  | some entry =>
      have ho : s.maps.origin (Flow.ofInner t).domainId = some entry.originIpv6 := by
        rw [Maps.origin, Flow.ofInner, hnat, Option.map_some]
      rw [domainIdFromIpv6] at hnat
      rw [tcIngressTranslate, exec_bind_of_ok (exec_get s)]
      simp only [hnat]
      rw [exec_bind_of_ok hh.exec_srcAddr, exec_bind_of_ok hh.exec_extractL4Ports]
      simp only [s.maps.getElem?_obfsKeys, L4Proto.protoNum_toIpProto]
      by_cases hz : s.maps.obfsKeys[0]!.isZero = true
      · have hpub : s.maps.publish (Flow.ofInner t) = none := by
          simp [Maps.publish, Maps.activeKey_of_isZero hz]
        rw [if_pos hz, hpub]
        rfl
      · have hpub : s.maps.publish (Flow.ofInner t) =
            ((Flow.ofInner t).proxySrc s.maps.obfsKeys[0]!).map fun a ↦
              ⟨a, entry.originIpv6, t.srcPort, t.dstPort, t.proto⟩ := by
          simp only [Maps.publish, Maps.activeKey_of_not_isZero hz, ho]
          rfl
        rw [if_neg hz, hpub]
        cases hsrc : (Flow.ofInner t).proxySrc s.maps.obfsKeys[0]! with
        | none =>
            simp only [Flow.proxySrc, Flow.ofInner, Flow.ctx, clientIdFromVip, domainIdFromIpv6]
              at hsrc
            simp only [hsrc, Option.map_none, exec_pure]
        | some a =>
            simp only [Flow.proxySrc, Flow.ofInner, Flow.ctx, clientIdFromVip, domainIdFromIpv6]
              at hsrc
            simp only [hsrc, Option.map_some]

theorem exec_tryTcIngressWan (build : Build) (h : Carries f t s.data)
    (hpre : HasPrefix proxySrcPrefix t.dst) :
    exec (tryTcIngressWan build) s =
      match s.maps.resolve t.mirror with
      | none => (.ok .shot, s)
      | some flow => exec (tcIngressWanRewrite build f.offset t.proto.toIpProto t.src t.dst
          (syntheticIpv6 flow.domainId) (clientVipFromId24 flow.clientId)) s := by
  have hh := h.2
  rw [tryTcIngressWan_eq_withHeader, exec_withHeader h hpre, tcIngressWanTranslate,
    exec_bind_of_ok hh.exec_extractL4Ports]
  simp only [L4Proto.protoNum_toIpProto]
  by_cases hz : s.maps.obfsKeys[0]!.isZero = true
  · have hdec : exec (tryDecodeWithActiveKey t.dst ⟨t.dstPort, t.srcPort, t.proto.number⟩) s =
        (.ok none, s) := by
      rw [tryDecodeWithActiveKey, exec_bind_of_ok (exec_get s)]
      simp only [s.maps.getElem?_obfsKeys, if_pos hz]
      rfl
    have hres : s.maps.resolve t.mirror = none := by
      simp [Maps.resolve, Maps.activeKey_of_isZero hz]
    rw [exec_bind_of_ok hdec, hres]
    rfl
  · have hdec : exec (tryDecodeWithActiveKey t.dst ⟨t.dstPort, t.srcPort, t.proto.number⟩) s =
        (.ok (decodeProxySrc t.dst ⟨t.dstPort, t.srcPort, t.proto.number⟩ s.maps.obfsKeys[0]!),
          s) := by
      rw [tryDecodeWithActiveKey, exec_bind_of_ok (exec_get s)]
      simp only [s.maps.getElem?_obfsKeys, if_neg hz]
      rfl
    rw [exec_bind_of_ok hdec]
    have hpre' : HasPrefix proxySrcPrefix t.mirror.src := hpre
    cases hids : decodeProxySrc t.dst ⟨t.dstPort, t.srcPort, t.proto.number⟩
        s.maps.obfsKeys[0]! with
    | none =>
        have hres : s.maps.resolve t.mirror = none := by
          simp only [Maps.resolve, Maps.activeKey_of_not_isZero hz, if_pos hpre']
          simp only [Tuple.mirror, hids]
        rw [hres]
        rfl
    | some ids =>
        obtain ⟨c, d⟩ := ids
        have hres : s.maps.resolve t.mirror = if s.maps.origin d = some t.src then
            some ⟨c, d, t.dstPort, t.srcPort, t.proto⟩ else none := by
          simp only [Maps.resolve, Maps.activeKey_of_not_isZero hz, if_pos hpre']
          simp only [Tuple.mirror, hids]
          rfl
        simp only
        rw [exec_bind_of_ok hh.exec_srcAddr, exec_bind_of_ok (exec_get s), hres]
        cases hnat : s.maps.natMap.get d with
        | none =>
            have ho : s.maps.origin d = none := by rw [Maps.origin, hnat, Option.map_none]
            rw [ho, if_neg (by simp)]
            rfl
        | some entry =>
            have ho : s.maps.origin d = some entry.originIpv6 := by
              rw [Maps.origin, hnat, Option.map_some]
            simp only [ho, Option.some.injEq]
            by_cases hsrc : t.src = entry.originIpv6
            · rw [if_neg (not_not.mpr hsrc), if_pos hsrc.symm]
            · rw [if_pos hsrc, if_neg (Ne.symm hsrc)]
              rfl

end Decisions

/-! ## Outcomes of the entry points -/

theorem exec_tcIngress_of_ok {build : Build} {s s' : Ctx} {a : TcAction}
    (h : exec (tryTcIngress build) s = (.ok a, s')) :
    exec (tcIngress build) s = (.ok a, s') :=
  exec_tryCatch_of_ok h

theorem exec_tcIngress_of_err {build : Build} {s s' : Ctx}
    (h : exec (tryTcIngress build) s = (.error .err, s')) :
    exec (tcIngress build) s = (.ok .ok, s') :=
  exec_tryCatch_of_error h

theorem exec_tcIngressWan_of_ok {build : Build} {s s' : Ctx} {a : TcAction}
    (h : exec (tryTcIngressWan build) s = (.ok a, s')) :
    exec (tcIngressWan build) s = (.ok a, s') :=
  exec_tryCatch_of_ok h

theorem exec_tcIngressWan_of_err {build : Build} {s s' : Ctx}
    (h : exec (tryTcIngressWan build) s = (.error .err, s')) :
    exec (tcIngressWan build) s = (.ok .ok, s') :=
  exec_tryCatch_of_error h

section Outcomes

variable {f : Framing} {t pub : Tuple} {flow : Flow} {s : Ctx}

theorem exec_tryTcIngress_of_publish (build : Build) (h : Carries f t s.data)
    (hpre : HasPrefix syntheticPrefix t.dst)
    (hpub : s.maps.publish (Flow.ofInner t) = some pub) :
    exec (tryTcIngress build) s =
      (.ok .ok, ⟨outboundBytes f t ((s.maps.devWan build).getD pub.src) pub.dst s.data,
        s.maps.track build pub pub.src⟩) := by
  obtain ⟨key, a, o, -, -, -, rfl⟩ := (s.maps.publish_eq_some_iff _ pub).mp hpub
  rw [exec_tryTcIngress build h hpre, hpub]
  exact exec_tcIngressRewrite build h o a

/-- What `tc_ingress` makes of a packet it publishes. -/
theorem exec_tcIngress_of_publish (build : Build) (h : Carries f t s.data)
    (hpre : HasPrefix syntheticPrefix t.dst)
    (hpub : s.maps.publish (Flow.ofInner t) = some pub) :
    exec (tcIngress build) s =
      (.ok .ok, ⟨outboundBytes f t ((s.maps.devWan build).getD pub.src) pub.dst s.data,
        s.maps.track build pub pub.src⟩) :=
  exec_tcIngress_of_ok (exec_tryTcIngress_of_publish build h hpre hpub)

theorem tcIngress_translates (build : Build) (h : Carries f t s.data)
    (hpre : HasPrefix syntheticPrefix t.dst)
    (hpub : s.maps.publish (Flow.ofInner t) = some pub) :
    ∃ src m d', exec (tcIngress build) s = (.ok .ok, ⟨d', m⟩) ∧
      Rewritten f.offset (csumOf f t.proto) src pub.dst s.data d' ∧
        (build = .production → src = pub.src ∧ m = s.maps) := by
  refine ⟨_, _, _, exec_tcIngress_of_publish build h hpre hpub, rewritten_outboundBytes h _ _, ?_⟩
  rintro rfl
  exact ⟨rfl, rfl⟩

theorem tcIngress_publishes (h : Carries f t s.data) (hpre : HasPrefix syntheticPrefix t.dst)
    (hpub : s.maps.publish (Flow.ofInner t) = some pub) :
    ∃ d', exec (tcIngress .production) s = (.ok .ok, { s with data := d' }) ∧
      Rewritten f.offset (csumOf f t.proto) pub.src pub.dst s.data d' := by
  obtain ⟨src, m, d', hexec, hr, hprod⟩ := tcIngress_translates .production h hpre hpub
  obtain ⟨rfl, rfl⟩ := hprod rfl
  exact ⟨d', hexec, hr⟩

theorem tcIngress_drops (build : Build) (h : Carries f t s.data)
    (hpre : HasPrefix syntheticPrefix t.dst)
    (hpub : s.maps.publish (Flow.ofInner t) = none) :
    exec (tcIngress build) s = (.ok .shot, s) := by
  apply exec_tcIngress_of_ok
  rw [exec_tryTcIngress build h hpre, hpub]

/-- `tc_ingress` either fails or decides without having touched anything, or
the packet has complete headers, is addressed to the synthetic prefix and is
published. -/
theorem exec_tryTcIngress_cases (build : Build) (s : Ctx) :
    exec (tryTcIngress build) s = (.error .err, s) ∨
      (∃ a, exec (tryTcIngress build) s = (.ok a, s) ∧ (a = .ok ∨ a = .shot)) ∨
        ∃ f t pub, Carries f t s.data ∧ HasPrefix syntheticPrefix t.dst ∧
          s.maps.publish (Flow.ofInner t) = some pub := by
  rcases exec_withHeader_cases syntheticPrefix (tcIngressTranslate build) s with
    herr | hok | ⟨f, p, dst, hf, hlen, hnh, hdst, hpre, hexec⟩
  · exact .inl herr
  · exact .inr (.inl ⟨.ok, hok, .inl rfl⟩)
  · by_cases hfull : f.offset + ipv6HdrLen + p.hdrLen ≤ s.data.length
    · obtain ⟨t, hc, -, rfl⟩ := exists_carries hf hfull hnh hdst
      cases hpub : s.maps.publish (Flow.ofInner t) with
      | none =>
          refine .inr (.inl ⟨.shot, ?_, .inr rfl⟩)
          rw [exec_tryTcIngress build hc hpre, hpub]
      | some pub => exact .inr (.inr ⟨f, t, pub, hc, hpre, hpub⟩)
    · cases hnat : s.maps.natMap.get (domainIdFromIpv6 dst) with
      | none =>
          refine .inr (.inl ⟨.shot, ?_, .inr rfl⟩)
          rw [tryTcIngress_eq_withHeader, hexec, exec_tcIngressTranslate_of_none build hnat]
      | some entry =>
          left
          obtain ⟨src, hsrc⟩ : ∃ src : Ipv6Addr,
              window s.data (f.offset + 8) 16 = src.toList :=
            exists_window (by rw [ipv6HdrLen] at hlen; omega)
          have hread : exec (srcAddr f.offset) s = (.ok src, s) :=
            exec_deref (by rw [ipv6HdrLen] at hlen; omega) hsrc
          rw [domainIdFromIpv6] at hnat
          rw [tryTcIngress_eq_withHeader, hexec, tcIngressTranslate, exec_bind_of_ok (exec_get s)]
          simp only [hnat]
          rw [exec_bind_of_ok hread,
            exec_bind_of_error (exec_extractL4Ports_err (Nat.lt_of_not_le hfull))]

/-- A packet that `tc_ingress` changes has complete headers, is addressed to
the synthetic prefix and is published. -/
theorem tcIngress_cases (build : Build) (s : Ctx) :
    (∃ a, exec (tcIngress build) s = (.ok a, s) ∧ (a = .ok ∨ a = .shot)) ∨
      ∃ f t pub, Carries f t s.data ∧ HasPrefix syntheticPrefix t.dst ∧
        s.maps.publish (Flow.ofInner t) = some pub := by
  rcases exec_tryTcIngress_cases build s with herr | ⟨a, ha, hact⟩ | hpub
  · exact .inl ⟨.ok, exec_tcIngress_of_err herr, .inl rfl⟩
  · exact .inl ⟨a, exec_tcIngress_of_ok ha, hact⟩
  · exact .inr hpub

theorem exec_tryTcIngressWan_of_resolve (build : Build) (h : Carries f t s.data)
    (hres : s.maps.resolve t.mirror = some flow) :
    exec (tryTcIngressWan build) s =
      (.ok (if s.maps.xfrmIfindex[0]! ≠ 0 then .redirect s.maps.xfrmIfindex[0]! else .shot),
        { s with
          data := returnBytes f t (s.maps.devWan build) (syntheticIpv6 flow.domainId)
            (clientVipFromId24 flow.clientId) s.data }) := by
  obtain ⟨-, -, hpre, -⟩ := (s.maps.resolve_eq_some_iff t.mirror flow).mp hres
  rw [exec_tryTcIngressWan build h hpre, hres]
  exact exec_tcIngressWanRewrite build h _ _

/-- What `tc_ingress_wan` makes of a reply it resolves. -/
theorem exec_tcIngressWan_of_resolve (build : Build) (h : Carries f t s.data)
    (hres : s.maps.resolve t.mirror = some flow) :
    exec (tcIngressWan build) s =
      (.ok (if s.maps.xfrmIfindex[0]! ≠ 0 then .redirect s.maps.xfrmIfindex[0]! else .shot),
        { s with
          data := returnBytes f t (s.maps.devWan build) (syntheticIpv6 flow.domainId)
            (clientVipFromId24 flow.clientId) s.data }) :=
  exec_tcIngressWan_of_ok (exec_tryTcIngressWan_of_resolve build h hres)

theorem tcIngressWan_resolves (build : Build) (h : Carries f t s.data)
    (hres : s.maps.resolve t.mirror = some flow) :
    ∃ d', exec (tcIngressWan build) s =
        (.ok (if s.maps.xfrmIfindex[0]! ≠ 0 then .redirect s.maps.xfrmIfindex[0]! else .shot),
          { s with data := d' }) ∧
      Rewritten f.offset (csumOf f t.proto) (syntheticIpv6 flow.domainId)
        (clientVipFromId24 flow.clientId) s.data d' :=
  ⟨_, exec_tcIngressWan_of_resolve build h hres, rewritten_returnBytes h _ _ _⟩

theorem tcIngressWan_drops (build : Build) (h : Carries f t s.data)
    (hpre : HasPrefix proxySrcPrefix t.dst) (hres : s.maps.resolve t.mirror = none) :
    exec (tcIngressWan build) s = (.ok .shot, s) := by
  apply exec_tcIngressWan_of_ok
  rw [exec_tryTcIngressWan build h hpre, hres]

/-- `tc_ingress_wan` either fails or passes the packet on as it is, or the
packet has complete headers and is addressed to the proxy-source prefix. -/
theorem exec_tryTcIngressWan_cases (build : Build) (s : Ctx) :
    exec (tryTcIngressWan build) s = (.error .err, s) ∨
      exec (tryTcIngressWan build) s = (.ok .ok, s) ∨
        ∃ f t, Carries f t s.data ∧ HasPrefix proxySrcPrefix t.dst := by
  rcases exec_withHeader_cases proxySrcPrefix (tcIngressWanTranslate build) s with
    herr | hok | ⟨f, p, dst, hf, hlen, hnh, hdst, hpre, hexec⟩
  · exact .inl herr
  · exact .inr (.inl hok)
  · by_cases hfull : f.offset + ipv6HdrLen + p.hdrLen ≤ s.data.length
    · obtain ⟨t, hc, -, rfl⟩ := exists_carries hf hfull hnh hdst
      exact .inr (.inr ⟨f, t, hc, hpre⟩)
    · left
      rw [tryTcIngressWan_eq_withHeader, hexec, tcIngressWanTranslate,
        exec_bind_of_error (exec_extractL4Ports_err (Nat.lt_of_not_le hfull))]

/-- A packet that `tc_ingress_wan` does not pass on as it is has complete
headers and is addressed to the proxy-source prefix. -/
theorem tcIngressWan_cases (build : Build) (s : Ctx) :
    exec (tcIngressWan build) s = (.ok .ok, s) ∨
      ∃ f t, Carries f t s.data ∧ HasPrefix proxySrcPrefix t.dst := by
  rcases exec_tryTcIngressWan_cases build s with herr | hok | hc
  · exact .inl (exec_tcIngressWan_of_err herr)
  · exact .inl (exec_tcIngressWan_of_ok hok)
  · exact .inr hc

/-- Either the packet stays as it is, or it is the reply of a flow and is
rewritten as a whole. -/
theorem tcIngressWan_outcome (build : Build) (s : Ctx) :
    (∃ a, exec (tcIngressWan build) s = (.ok a, s) ∧ (a = .ok ∨ a = .shot)) ∨
      ∃ f t flow, Carries f t s.data ∧ s.maps.resolve t.mirror = some flow := by
  rcases tcIngressWan_cases build s with hok | ⟨f, t, hc, hpre⟩
  · exact .inl ⟨.ok, hok, .inl rfl⟩
  · cases hres : s.maps.resolve t.mirror with
    | none => exact .inl ⟨.shot, tcIngressWan_drops build hc hpre hres, .inr rfl⟩
    | some flow => exact .inr ⟨f, t, flow, hc, hres⟩

end Outcomes

/-! ## The XDP filter on return traffic -/

/-- What the filter reads of an Ethernet/IPv6 frame before it decides. -/
theorem exec_xdpHeader {t : Tuple} {s : Ctx} (hty : IsEthernetIpv6 s.data)
    (hh : HeaderAt ethHdrLen t s.data) :
    exec (ptrAtXdp ethHdrLen 0) s = (.ok 0, s) ∧
      exec (etherType 0) s = (.ok etherTypeIpv6, s) ∧
      exec (ptrAtXdp ipv6HdrLen ethHdrLen) s = (.ok ethHdrLen, s) ∧
      ¬ t.proto.toIpProto = .ipv6Icmp := by
  have hlen : 14 ≤ s.data.length := hty.length_le
  refine ⟨exec_ptrAt_ok (by simpa [ethHdrLen] using hlen), exec_deref (by omega) hty,
    hh.exec_ptrAt, ?_⟩
  cases t.proto <;> simp [L4Proto.toIpProto]

/-- An Ethernet/IPv6 frame to a proxy-source address passes the filter, which
does not touch the packet. -/
theorem xdpWan_passes_return (build : Build) {t : Tuple} {s : Ctx}
    (hty : IsEthernetIpv6 s.data) (hh : HeaderAt ethHdrLen t s.data)
    (hpre : HasPrefix proxySrcPrefix t.dst) :
    ∃ m, exec (xdpWan build) s = (.ok .pass, { s with maps := m }) ∧
      (build = .production → m = s.maps) := by
  obtain ⟨hptr, hty', hhdr, hicmp⟩ := exec_xdpHeader hty hh
  have htry : ∃ m, exec (tryXdpWan build) s = (.ok .pass, { s with maps := m }) ∧
      (build = .production → m = s.maps) := by
    rw [tryXdpWan, exec_bind_of_ok hptr, exec_bind_of_ok hty', if_neg (by simp),
      exec_bind_of_ok hhdr, exec_bind_of_ok hh.exec_nextHdr, if_neg hicmp,
      exec_bind_of_ok hh.exec_dstAddr]
    cases build with
    | production => exact ⟨s.maps, by simp [hpre], fun _ ↦ rfl⟩
    | devMode =>
        simp only [if_pos, hpre]
        exact ⟨_, rfl, by simp⟩
  obtain ⟨m, hexec, hm⟩ := htry
  exact ⟨m, exec_tryCatch_of_ok hexec, hm⟩

end PrototypeNet
