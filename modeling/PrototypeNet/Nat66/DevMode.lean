import PrototypeNet.Nat66.Checksum

/-!
# The double NAT of a dev-mode build

With a WAN address set, packets leave under that address and `REPLY_TRACK`
remembers the proxy-source address it stands for.  `xdp_wan` puts the
proxy-source address back into a reply without correcting the checksum, and
`tc_ingress_wan` makes up for it.  The tracking key names the origin and the
ports only, so two flows can share one.
-/

namespace PrototypeNet

open ByteWords Buffer Fallible

/-! ## A tracked reply -/

theorem Maps.devWan_devMode_iff {m : Maps} {w : Ipv6Addr} :
    m.devWan .devMode = some w ↔ m.devWanIpv6[0]! = w ∧ w ≠ Vector.replicate 16 0 := by
  unfold Maps.devWan
  split_ifs with h
  · constructor
    · intro hw
      cases hw
      exact ⟨rfl, h.2⟩
    · rintro ⟨rfl, -⟩
      rfl
  · constructor
    · intro hw
      cases hw
    · rintro ⟨rfl, hw⟩
      exact absurd ⟨rfl, hw⟩ h

/-- Two map states that differ in the debug counters only. -/
def Maps.SameButCounters (m m' : Maps) : Prop :=
  ∃ counters, m' = { m with dbgCounters := counters }

theorem exec_dbgInc (i : Fin 8) (s : Ctx) :
    ∃ counters, exec (dbgInc i) s =
      (.ok (), { s with maps := { s.maps with dbgCounters := counters } }) :=
  ⟨_, rfl⟩

section Reply

variable {t : Tuple} {s : Ctx} {a : Ipv6Addr}

theorem HeaderAt.exec_extractL4PortsXdp {off : ℕ} (h : HeaderAt off t s.data) :
    exec (PrototypeNet.extractL4PortsXdp (off + ipv6HdrLen) t.proto.toIpProto) s =
      (.ok (t.srcPort, t.dstPort), s) := by
  have hsame : extractL4PortsXdp (off + ipv6HdrLen) t.proto.toIpProto =
      extractL4Ports (off + ipv6HdrLen) t.proto.toIpProto := by
    cases t.proto <;> rfl
  rw [hsame, h.exec_extractL4Ports]

/-- A reply that is tracked gets the proxy-source address back as destination. -/
theorem exec_xdpDevReply_of_track (hh : HeaderAt ethHdrLen t s.data)
    (hw : s.maps.devWan .devMode = some t.dst)
    (hget : s.maps.replyTrack.get t.mirror.replyKey = some ⟨a⟩) :
    ∃ m, exec (xdpDevReply ethHdrLen t.dst) s =
        (.ok (some .pass), ⟨patch s.data (ethHdrLen + 24) a.toList, m⟩) ∧
      s.maps.SameButCounters m := by
  obtain ⟨hwan, hne⟩ := Maps.devWan_devMode_iff.mp hw
  have hslot : s.maps.devWanIpv6[0]? = some t.dst := by
    rw [← hwan]
    simp
  obtain ⟨c₁, hinc₁⟩ := exec_dbgInc 2 s
  let s₁ : Ctx := { s with maps := { s.maps with dbgCounters := c₁ } }
  have hh₁ : HeaderAt ethHdrLen t s₁.data := hh
  obtain ⟨c₂, hinc₂⟩ := exec_dbgInc 3 s₁
  have hports : exec (tryCatch (some <$> extractL4PortsXdp (ethHdrLen + ipv6HdrLen)
      t.proto.toIpProto) fun e ↦ if e = .err then pure none else throw e) s₁ =
      (.ok (some (t.srcPort, t.dstPort)), s₁) := by
    apply exec_tryCatch_of_ok
    rw [map_eq_pure_bind, exec_bind_of_ok hh₁.exec_extractL4PortsXdp, exec_pure]
  have hkey : s.maps.replyTrack.get ⟨t.src, toBe16 t.srcPort, toBe16 t.dstPort,
      protoNum t.proto.toIpProto⟩ = some ⟨a⟩ := by
    rw [L4Proto.protoNum_toIpProto]
    exact hget
  refine ⟨{ s.maps with dbgCounters := c₂ }, ?_, ⟨c₂, rfl⟩⟩
  rw [xdpDevReply, exec_bind_of_ok (exec_get s)]
  simp only [hslot]
  rw [if_pos ⟨hne, trivial⟩, exec_bind_of_ok hinc₁, exec_bind_of_ok hh₁.exec_nextHdr,
    if_neg t.proto.not_other, exec_bind_of_ok hports]
  simp only
  rw [exec_bind_of_ok hh₁.exec_srcAddr]
  simp only [hkey]
  rw [exec_bind_of_ok hinc₂, exec_bind_of_ok (exec_modify _ _), exec_pure]

theorem exec_xdpWan_of_track (hc : Carries .ethernet t s.data)
    (hpre : ¬ HasPrefix proxySrcPrefix t.dst) (hw : s.maps.devWan .devMode = some t.dst)
    (hget : s.maps.replyTrack.get t.mirror.replyKey = some ⟨a⟩) :
    ∃ m, exec (xdpWan .devMode) s =
        (.ok .pass, ⟨patch s.data (ethHdrLen + 24) a.toList, m⟩) ∧
      s.maps.SameButCounters m := by
  have hh : HeaderAt ethHdrLen t s.data := hc.2
  obtain ⟨hptr, hty', hhdr, hicmp⟩ := exec_xdpHeader hc.1.2 hh
  obtain ⟨c, hinc⟩ := exec_dbgInc 0 s
  let s₁ : Ctx := { s with maps := { s.maps with dbgCounters := c } }
  have hh₁ : HeaderAt ethHdrLen t s₁.data := hh
  obtain ⟨m, hreply, c', hm⟩ := exec_xdpDevReply_of_track (s := s₁) hh₁ hw hget
  refine ⟨m, exec_tryCatch_of_ok ?_, c', hm⟩
  rw [tryXdpWan, exec_bind_of_ok hptr, exec_bind_of_ok hty', if_neg (by simp),
    exec_bind_of_ok hhdr, exec_bind_of_ok hh.exec_nextHdr, if_neg hicmp,
    exec_bind_of_ok hh.exec_dstAddr]
  simp only [if_pos, if_neg hpre]
  rw [exec_bind_of_ok hinc, exec_bind_of_ok hreply, exec_pure]

end Reply

/-! ## There and back -/

section RoundTrip

variable {f : Framing} {t pub : Tuple} {flow : Flow} {m : Maps} {w : Ipv6Addr} {d r : List Byte}

theorem rewritten_patch_dst (hc : Carries f t d) (a : Ipv6Addr) :
    Rewritten f.offset (csumOf f t.proto) t.src a d (patch d (f.offset + 24) a.toList) where
  length := length_patch _ _ _
  src := by
    rw [window_patch_of_disjoint _ _ _ (by omega)]
    exact hc.2.src
  dst := by
    have hlen := hc.2.length_le
    exact window_patch_self _ _ _ Vector.length_toList (by omega)
  same := by
    intro i hi _
    exact getElem?_patch_of_disjoint _ _ _ (by simp; omega)

/-- The checksum goes on verifying for the address that was there before. -/
theorem Verifies.patch_dst {len : ℕ} (hv : Verifies f t len d) (a : Ipv6Addr) :
    Verifies f t len (patch d (f.offset + 24) a.toList) := by
  unfold Verifies at hv ⊢
  rwa [length_patch, window_patch_of_disjoint _ _ _ (by simp [ipv6HdrLen])]

theorem Maps.SameButCounters.publish_eq {m' : Maps} (h : m.SameButCounters m') (flow : Flow) :
    m'.publish flow = m.publish flow := by
  obtain ⟨c, rfl⟩ := h
  rfl

/-- A client's packet leaves under the WAN address, and its proxy-source
address is tracked. -/
theorem tcIngress_devMode_carries (hpub : m.publish flow = some pub)
    (hw : m.devWan .devMode = some w) (hc : Carries f flow.inner d) :
    ∃ d', exec (tcIngress .devMode) ⟨d, m⟩ = (.ok .ok, ⟨d', m.track .devMode pub pub.src⟩) ∧
      Carries f { pub with src := w } d' := by
  have hpub' : m.publish (Flow.ofInner flow.inner) = some pub := by
    rw [Flow.ofInner_inner]
    exact hpub
  have hexec := exec_tcIngress_of_publish (s := ⟨d, m⟩) .devMode hc
    (hasPrefix_syntheticIpv6 flow.domainId) hpub'
  simp only [hw, Option.getD_some] at hexec
  refine ⟨_, hexec, ?_⟩
  obtain ⟨key, a, o, -, -, -, rfl⟩ := (m.publish_eq_some_iff flow pub).mp hpub
  exact (rewritten_outboundBytes hc w o).carries hc

/-- A reply to a tracked flow passes both programs and reaches the client as a
reply from the synthetic address; a checksum that verified goes on verifying. -/
theorem tracked_reply_returns (hpub : m.publish flow = some pub)
    (hw : m.devWan .devMode = some w) (hpre : ¬ HasPrefix proxySrcPrefix w)
    (hget : m.replyTrack.get pub.replyKey = some ⟨pub.src⟩) (hi : m.xfrmIfindex[0]! ≠ 0)
    (hc : Carries .ethernet { pub with src := w }.mirror r) :
    ∃ r₁ m₁ r₂, exec (xdpWan .devMode) ⟨r, m⟩ = (.ok .pass, ⟨r₁, m₁⟩) ∧
      exec (tcIngressWan .devMode) ⟨r₁, m₁⟩ =
        (.ok (.redirect m.xfrmIfindex[0]!), ⟨r₂, m₁⟩) ∧
      Carries .ethernet flow.inner.mirror r₂ ∧
      ∀ len, Verifies .ethernet { pub with src := w }.mirror len r →
        Verifies .ethernet flow.inner.mirror len r₂ := by
  obtain ⟨m₁, hxdp, hsame⟩ := exec_xdpWan_of_track (s := ⟨r, m⟩) hc hpre hw hget
  -- What `xdp_wan` wrote, and the maps it left, matter only through these facts.
  obtain ⟨r₁, hr₁⟩ : ∃ r₁, r₁ = patch r (ethHdrLen + 24) pub.src.toList := ⟨_, rfl⟩
  have hc₁ : Carries .ethernet pub.mirror r₁ := by
    rw [hr₁]
    exact (rewritten_patch_dst hc pub.src).carries hc
  have hverify : ∀ len, Verifies .ethernet { pub with src := w }.mirror len r →
      Verifies .ethernet { pub with src := w }.mirror len r₁ := by
    intro len hv
    rw [hr₁]
    exact hv.patch_dst pub.src
  rw [← hr₁] at hxdp
  have hpub₁ : m₁.publish flow = some pub := (hsame.publish_eq flow).trans hpub
  have hres₁ : m₁.resolve pub = some flow := (m₁.resolve_iff_publish flow pub).mpr hpub₁
  obtain ⟨counters, hm₁⟩ := hsame
  obtain ⟨r₂, hback, hc₂⟩ := tcIngressWan_carries .devMode (s := ⟨r₁, m₁⟩) hpub₁ hc₁
  have hi₁ : m₁.xfrmIfindex[0]! = m.xfrmIfindex[0]! := by rw [hm₁]
  have hw₁ : m₁.devWan .devMode = some w := by
    rw [hm₁]
    exact hw
  simp only [hi₁, if_pos hi] at hback
  refine ⟨r₁, m₁, r₂, hxdp, hback, hc₂, ?_⟩
  intro len hv
  have hv₁ : Verifies .ethernet
      { pub.mirror with dst := (m₁.devWan .devMode).getD pub.mirror.dst } len r₁ := by
    rw [hw₁]
    exact hverify len hv
  obtain ⟨r₃, hback', -, hv₃⟩ := tcIngressWan_verifies (s := ⟨r₁, m₁⟩) .devMode hc₁ hv₁ hres₁
  obtain ⟨-, hctx⟩ := Prod.mk.inj (hback.symm.trans hback')
  rw [(Ctx.mk.inj hctx).1]
  exact hv₃

end RoundTrip

/-- The double NAT is transparent once a tunnel interface is set: a client's
packet reaches the origin from the WAN address, and a reply to the WAN address
reaches the client from the synthetic address with a checksum that verifies. -/
theorem dev_double_nat_transparent (m : Maps) (clientId domainId : BitVec 32) (w o : Ipv6Addr)
    (srcPort dstPort : BitVec 16) (proto : L4Proto) (f : Framing) (p : List Byte)
    (hwan : m.devWanIpv6[0]! = w) (hw : w ≠ Vector.replicate 16 0)
    (hpre : ¬ HasPrefix proxySrcPrefix w)
    (hc : clientId ≤ 0xffffff) (hd : domainId ≤ 0xffffff)
    (hp : Carries f
      ⟨clientVipFromId24 clientId, syntheticIpv6 domainId, srcPort, dstPort, proto⟩ p)
    (hnat : m.natMap.get domainId = some ⟨o⟩)
    (hkey : m.obfsKeys[0]! ≠ ⟨Vector.replicate 16 0, Vector.replicate 16 0⟩) :
    ∃ a p', encodeProxySrc clientId domainId ⟨srcPort, dstPort, proto.number⟩ m.obfsKeys[0]! =
        some a ∧
      exec (tcIngress .devMode) ⟨p, m⟩ = (.ok .ok, ⟨p', { m with
        replyTrack := (m.replyTrack.insert
          ⟨o, toBe16 dstPort, toBe16 srcPort, proto.number⟩ ⟨a⟩).getD m.replyTrack }⟩) ∧
      Carries f ⟨w, o, srcPort, dstPort, proto⟩ p' ∧
      ∀ (m' : Maps) (r : List Byte) (len : ℕ),
        m'.devWanIpv6[0]! = w → m'.natMap.get domainId = some ⟨o⟩ →
        m'.obfsKeys[0]! = m.obfsKeys[0]! → m'.xfrmIfindex[0]! ≠ 0 →
        m'.replyTrack.get ⟨o, toBe16 dstPort, toBe16 srcPort, proto.number⟩ = some ⟨a⟩ →
        Carries .ethernet ⟨o, w, dstPort, srcPort, proto⟩ r →
        Verifies .ethernet ⟨o, w, dstPort, srcPort, proto⟩ len r →
          ∃ r₁ m₁ r₂, exec (xdpWan .devMode) ⟨r, m'⟩ = (.ok .pass, ⟨r₁, m₁⟩) ∧
            exec (tcIngressWan .devMode) ⟨r₁, m₁⟩ =
              (.ok (.redirect m'.xfrmIfindex[0]!), ⟨r₂, m₁⟩) ∧
            Carries .ethernet
              ⟨syntheticIpv6 domainId, clientVipFromId24 clientId, dstPort, srcPort, proto⟩ r₂ ∧
            Verifies .ethernet
              ⟨syntheticIpv6 domainId, clientVipFromId24 clientId, dstPort, srcPort, proto⟩
              len r₂ := by
  let flow : Flow := ⟨clientId, domainId, srcPort, dstPort, proto⟩
  have hdev : m.devWan .devMode = some w := Maps.devWan_devMode_iff.mpr ⟨hwan, hw⟩
  obtain ⟨a, hpub, -⟩ : ∃ a, m.publish flow = some ⟨a, o, srcPort, dstPort, proto⟩ ∧
      HasPrefix proxySrcPrefix a := Maps.exists_publish hc hd hnat hkey
  have henc : flow.proxySrc m.obfsKeys[0]! = some a :=
    (Maps.publish_eq_some_iff_of_key rfl hkey hnat).mp hpub
  obtain ⟨p', hout, hp'⟩ := tcIngress_devMode_carries hpub hdev hp
  rw [Maps.track, if_pos ⟨rfl, by rw [hwan]; exact hw⟩] at hout
  refine ⟨a, p', henc, hout, hp', ?_⟩
  intro m' r len hwan' hnat' hkey' hi hget hr hv
  have hpub' : m'.publish flow = some ⟨a, o, srcPort, dstPort, proto⟩ :=
    (Maps.publish_eq_some_iff_of_key hkey' hkey hnat').mpr henc
  obtain ⟨r₁, m₁, r₂, hxdp, hback, hc₂, hv₂⟩ := tracked_reply_returns hpub'
    (Maps.devWan_devMode_iff.mpr ⟨hwan', hw⟩) hpre hget hi hr
  exact ⟨r₁, m₁, r₂, hxdp, hback, hc₂, hv₂ len hv⟩

def demoWan : Ipv6Addr := Vector.replicate 16 0x21

def demoWanMaps : Maps :=
  { demoMaps with devWanIpv6 := #v[demoWan] }

def demoWanReply : List Byte :=
  udpPacketOf .ethernet ⟨demoOrigin, demoWan, 443, 50000, .udp⟩ 0x30c9 []

theorem dev_double_nat_transparent_demo :
    ∃ r₁ m₁ r₂, exec (xdpWan .devMode)
        ⟨demoWanReply, (exec (tcIngress .devMode) ⟨demoQuery, demoWanMaps⟩).2.maps⟩ =
          (.ok .pass, ⟨r₁, m₁⟩) ∧
      exec (tcIngressWan .devMode) ⟨r₁, m₁⟩ = (.ok (.redirect 5), ⟨r₂, m₁⟩) ∧
      Carries .ethernet ⟨syntheticIpv6 7, clientVipFromId24 0x10000, 443, 50000, .udp⟩ r₂ ∧
      Verifies .ethernet ⟨syntheticIpv6 7, clientVipFromId24 0x10000, 443, 50000, .udp⟩ 8 r₂ := by
  have hquery : Carries .rawIpv6
      ⟨clientVipFromId24 0x10000, syntheticIpv6 7, 50000, 443, .udp⟩ demoQuery := by
    decide +kernel
  have hnat : demoWanMaps.natMap.get 7 = some ⟨demoOrigin⟩ := by decide
  obtain ⟨a, p', -, hout, -, hreply⟩ := dev_double_nat_transparent demoWanMaps 0x10000 7 demoWan
    demoOrigin 50000 443 .udp .rawIpv6 demoQuery rfl (by decide) (by decide) (by decide)
    (by decide) hquery hnat (by decide)
  have hget : demoWanMaps.replyTrack.Accepts ⟨demoOrigin, toBe16 443, toBe16 50000, 17⟩ := by
    decide
  have hi : demoWanMaps.xfrmIfindex[0]! ≠ 0 := by decide
  rw [hout]
  refine hreply _ _ 8 rfl hnat rfl hi ?_ (by decide +kernel) (by decide +kernel)
  rw [BoundedMap.get_insert_getD]
  exact if_pos ⟨rfl, hget⟩

/-- Without a tunnel interface the reply is tracked, decoded and then dropped. -/
theorem dev_reply_dropped_without_tunnel :
    let m : Maps := { demoWanMaps with xfrmIfindex := #v[0] }
    let m' := (exec (tcIngress .devMode) ⟨demoQuery, m⟩).2.maps
    demoWan ≠ Vector.replicate 16 0 ∧ ¬ HasPrefix proxySrcPrefix demoWan ∧
      Carries .rawIpv6 ⟨clientVipFromId24 0x10000, syntheticIpv6 7, 50000, 443, .udp⟩ demoQuery ∧
      m.natMap.get 7 = some ⟨demoOrigin⟩ ∧ m.obfsKeys[0]!.isZero = false ∧
      m'.replyTrack.get ⟨demoOrigin, toBe16 443, toBe16 50000, 17⟩ = some ⟨demoUdpAddr⟩ ∧
      encodeProxySrc 0x10000 7 ⟨50000, 443, 17⟩ m.obfsKeys[0]! = some demoUdpAddr ∧
      Carries .ethernet ⟨demoOrigin, demoWan, 443, 50000, .udp⟩ demoWanReply ∧
      Verifies .ethernet ⟨demoOrigin, demoWan, 443, 50000, .udp⟩ 8 demoWanReply ∧
      (exec (xdpWan .devMode) ⟨demoWanReply, m'⟩).1 = .ok .pass ∧
      (exec (tcIngressWan .devMode) (exec (xdpWan .devMode) ⟨demoWanReply, m'⟩).2).1 =
        .ok .shot := by
  decide +kernel

/-! ## Runs of outbound packets -/

/-- The maps after `tc_ingress` has seen a packet. -/
def outboundStep (m : Maps) (d : List Byte) : Maps :=
  (exec (tcIngress .devMode) ⟨d, m⟩).2.maps

def outboundRun (m : Maps) (ds : List (List Byte)) : Maps :=
  ds.foldl outboundStep m

/-- The entry under the reply key of a public tuple is its own. -/
def Maps.Tracked (m : Maps) (pub : Tuple) : Prop :=
  m.replyTrack.get pub.replyKey = some ⟨pub.src⟩

/-- A packet of another flow that `tc_ingress` translates, with the same ports
and protocol and a domain of the same origin. -/
def SharesReplyKey (m : Maps) (flow : Flow) (d : List Byte) : Prop :=
  ∃ f t, Carries f t d ∧ HasPrefix syntheticPrefix t.dst ∧ Flow.ofInner t ≠ flow ∧
    t.srcPort = flow.srcPort ∧ t.dstPort = flow.dstPort ∧ t.proto = flow.proto ∧
    m.origin (domainIdFromIpv6 t.dst) = m.origin flow.domainId ∧
    clientIdFromVip t.src ≤ proxySrcClientIdMax ∧ domainIdFromIpv6 t.dst ≤ proxySrcDomainIdMax

section Tracking

variable {m : Maps} {flow g : Flow} {pub pub' : Tuple} {w : Ipv6Addr}

theorem toBe16_injective : Function.Injective toBe16 := by
  intro x y h
  have hback : ∀ z : BitVec 16, toBe16 (toBe16 z) = z := by
    intro z
    ext i hi
    simp only [toBe16, BitVec.getElem_rotateLeft]
    split_ifs <;> first | omega | (congr 1; omega)
  rw [← hback x, ← hback y, h]

theorem L4Proto.number_injective : Function.Injective L4Proto.number := by
  intro p q h
  cases p <;> cases q <;> first | rfl | exact absurd h (by decide)

theorem replyKey_eq_iff (t t' : Tuple) :
    t.replyKey = t'.replyKey ↔
      t.dst = t'.dst ∧ t.dstPort = t'.dstPort ∧ t.srcPort = t'.srcPort ∧ t.proto = t'.proto := by
  simp only [Tuple.replyKey, ReplyTrackKey.mk.injEq, toBe16_injective.eq_iff,
    L4Proto.number_injective.eq_iff]

/-- Two flows with one reply key still have different proxy-source addresses. -/
theorem src_ne_of_replyKey_eq (hpub : m.publish flow = some pub)
    (hpub' : m.publish g = some pub') (hne : g ≠ flow) (hkey : pub'.replyKey = pub.replyKey) :
    pub'.src ≠ pub.src := by
  intro hsrc
  obtain ⟨hdst, hdp, hsp, hp⟩ := (replyKey_eq_iff pub' pub).mp hkey
  have heq : pub' = pub := by
    obtain ⟨src, dst, sp, dp, p⟩ := pub
    obtain ⟨src', dst', sp', dp', p'⟩ := pub'
    simp only at hsrc hdst hdp hsp hp
    rw [hsrc, hdst, hdp, hsp, hp]
  rw [heq, ← m.resolve_iff_publish] at hpub'
  rw [← m.resolve_iff_publish, hpub'] at hpub
  exact hne (Option.some.inj hpub)

theorem get_replyTrack_track (hw : m.devWan .devMode = some w) (t : Tuple) (a : Ipv6Addr)
    (k : ReplyTrackKey) :
    (m.track .devMode t a).replyTrack.get k =
      if k = t.replyKey ∧ m.replyTrack.Accepts t.replyKey then some ⟨a⟩
      else m.replyTrack.get k := by
  obtain ⟨hwan, hne⟩ := Maps.devWan_devMode_iff.mp hw
  rw [Maps.track, if_pos ⟨rfl, by rw [hwan]; exact hne⟩]
  exact m.replyTrack.get_insert_getD t.replyKey ⟨a⟩ k

/-- A packet leaves the maps alone, or it is translated and tracked. -/
theorem outboundStep_cases (m : Maps) (d : List Byte) :
    outboundStep m d = m ∨
      ∃ f t pub, Carries f t d ∧ HasPrefix syntheticPrefix t.dst ∧
        m.publish (Flow.ofInner t) = some pub ∧
        outboundStep m d = m.track .devMode pub pub.src := by
  rcases tcIngress_cases .devMode ⟨d, m⟩ with ⟨a, ha, -⟩ | ⟨f, t, pub, hc, hpre, hpub⟩
  · left
    rw [outboundStep, ha]
  · refine .inr ⟨f, t, pub, hc, hpre, hpub, ?_⟩
    rw [outboundStep, exec_tcIngress_of_publish .devMode hc hpre hpub]

theorem outboundStep_of_publish {f : Framing} {t : Tuple} {d : List Byte}
    (hc : Carries f t d) (hpre : HasPrefix syntheticPrefix t.dst)
    (hpub : m.publish (Flow.ofInner t) = some pub) :
    outboundStep m d = m.track .devMode pub pub.src := by
  rw [outboundStep, exec_tcIngress_of_publish (s := ⟨d, m⟩) .devMode hc hpre hpub]

/-- Outbound packets write `REPLY_TRACK` only. -/
theorem outboundStep_frame (m : Maps) (d : List Byte) :
    ∃ replyTrack, outboundStep m d = { m with replyTrack := replyTrack } := by
  rcases outboundStep_cases m d with hsame | ⟨f, t, pub, -, -, -, htrack⟩
  · exact ⟨m.replyTrack, hsame⟩
  · rw [htrack, Maps.track]
    split_ifs
    · exact ⟨_, rfl⟩
    · exact ⟨m.replyTrack, rfl⟩

theorem devWan_outboundStep (build : Build) (m : Maps) (d : List Byte) :
    (outboundStep m d).devWan build = m.devWan build := by
  obtain ⟨rt, h⟩ := outboundStep_frame m d
  rw [h]
  rfl

theorem publish_outboundStep (m : Maps) (d : List Byte) (flow : Flow) :
    (outboundStep m d).publish flow = m.publish flow := by
  obtain ⟨rt, h⟩ := outboundStep_frame m d
  rw [h]
  rfl

theorem sharesReplyKey_outboundStep (m : Maps) (d : List Byte) (flow : Flow) :
    SharesReplyKey (outboundStep m d) flow = SharesReplyKey m flow := by
  obtain ⟨rt, h⟩ := outboundStep_frame m d
  rw [h]
  rfl

theorem outboundRun_frame (m : Maps) (ds : List (List Byte)) :
    ∃ replyTrack, outboundRun m ds = { m with replyTrack := replyTrack } := by
  induction ds generalizing m with
  | nil => exact ⟨m.replyTrack, rfl⟩
  | cons d ds ih =>
      obtain ⟨rt, hstep⟩ := outboundStep_frame m d
      obtain ⟨rt', hrun⟩ := ih (outboundStep m d)
      refine ⟨rt', hrun.trans ?_⟩
      rw [hstep]

theorem sharesReplyKey_iff (hpub : m.publish flow = some pub) (d : List Byte) :
    SharesReplyKey m flow d ↔
      ∃ f t pub', Carries f t d ∧ HasPrefix syntheticPrefix t.dst ∧ Flow.ofInner t ≠ flow ∧
        m.publish (Flow.ofInner t) = some pub' ∧ pub'.replyKey = pub.replyKey := by
  obtain ⟨key, a, o, hkey, ho, ha, rfl⟩ := (m.publish_eq_some_iff flow pub).mp hpub
  constructor
  · rintro ⟨f, t, hc, hpre, hne, hsp, hdp, hp, horigin, hcid, hdid⟩
    obtain ⟨a', ha'⟩ := Option.isSome_iff_exists.mp
      ((isSome_encodeProxySrc_iff _ _ (Flow.ofInner t).ctx key).mpr ⟨hcid, hdid⟩)
    have hpub' : m.publish (Flow.ofInner t) = some ⟨a', o, t.srcPort, t.dstPort, t.proto⟩ :=
      (m.publish_eq_some_iff _ _).mpr ⟨key, a', o, hkey, horigin.trans ho, ha', rfl⟩
    exact ⟨f, t, _, hc, hpre, hne, hpub', (replyKey_eq_iff _ _).mpr ⟨rfl, hdp, hsp, hp⟩⟩
  · rintro ⟨f, t, pub', hc, hpre, hne, hpub', hkeys⟩
    obtain ⟨key', a', o', -, ho', ha', rfl⟩ := (m.publish_eq_some_iff _ pub').mp hpub'
    obtain ⟨hdst, hdp, hsp, hp⟩ := (replyKey_eq_iff _ _).mp hkeys
    obtain ⟨hcid, hdid, -⟩ := (encodeProxySrc_eq_some_iff _ _ _ _ _).mp ha'
    have horigin : m.origin (domainIdFromIpv6 t.dst) = some o := ho'.trans (congrArg some hdst)
    exact ⟨f, t, hc, hpre, hne, hsp, hdp, hp, horigin.trans ho.symm, hcid, hdid⟩

/-- One packet later the entry is still the flow's own, unless the packet
shares the reply key: then it has taken the entry over. -/
theorem tracked_outboundStep_iff (hw : m.devWan .devMode = some w)
    (hpub : m.publish flow = some pub) (h : m.Tracked pub) (d : List Byte) :
    (outboundStep m d).Tracked pub ↔ ¬ SharesReplyKey m flow d := by
  rw [sharesReplyKey_iff hpub]
  constructor
  · rintro hafter ⟨f, t, pub', hc, hpre, hne, hpub', hkeys⟩
    have haccepts : m.replyTrack.Accepts pub'.replyKey := by
      rw [hkeys]
      exact BoundedMap.accepts_of_get h
    rw [Maps.Tracked, outboundStep_of_publish hc hpre hpub', get_replyTrack_track hw,
      if_pos ⟨hkeys.symm, haccepts⟩] at hafter
    exact src_ne_of_replyKey_eq hpub hpub' hne hkeys
      (congrArg ReplyTrackValue.proxySrc (Option.some.inj hafter))
  · intro hnone
    rcases outboundStep_cases m d with hsame | ⟨f, t, pub', hc, hpre, hpub', htrack⟩
    · rw [hsame]
      exact h
    · rw [Maps.Tracked, htrack, get_replyTrack_track hw]
      split_ifs with hkeys
      · have hflow : Flow.ofInner t = flow := by
          by_contra hne
          exact hnone ⟨f, t, pub', hc, hpre, hne, hpub', hkeys.1.symm⟩
        rw [hflow, hpub] at hpub'
        cases hpub'
        rfl
      · exact h

/-- Over a whole run: in every state reached the entry is the flow's own iff
it is at the start and no packet of the run shares the reply key. -/
theorem tracked_outboundRun_iff (hw : m.devWan .devMode = some w)
    (hpub : m.publish flow = some pub) (ds : List (List Byte)) :
    (∀ es, es <+: ds → (outboundRun m es).Tracked pub) ↔
      m.Tracked pub ∧ ∀ d ∈ ds, ¬ SharesReplyKey m flow d := by
  induction ds generalizing m with
  | nil => simp [outboundRun]
  | cons d ds ih =>
      have htail := ih (m := outboundStep m d) (by rw [devWan_outboundStep]; exact hw)
        (by rw [publish_outboundStep]; exact hpub)
      rw [sharesReplyKey_outboundStep] at htail
      have hsplit : (∀ es, es <+: d :: ds → (outboundRun m es).Tracked pub) ↔
          m.Tracked pub ∧ ∀ es, es <+: ds → (outboundRun (outboundStep m d) es).Tracked pub := by
        constructor
        · intro hall
          exact ⟨hall [] ⟨d :: ds, rfl⟩,
            fun es hes ↦ hall (d :: es) (List.cons_prefix_cons.mpr ⟨rfl, hes⟩)⟩
        · rintro ⟨hnow, hrest⟩ es hes
          rcases List.prefix_cons_iff.mp hes with rfl | ⟨es', rfl, hes'⟩
          · exact hnow
          · exact hrest es' hes'
      rw [hsplit, htail, List.forall_mem_cons]
      constructor
      · rintro ⟨hnow, hnext, hrest⟩
        exact ⟨hnow, (tracked_outboundStep_iff hw hpub hnow d).mp hnext, hrest⟩
      · rintro ⟨hnow, hd, hrest⟩
        exact ⟨hnow, (tracked_outboundStep_iff hw hpub hnow d).mpr hd, hrest⟩

theorem tracked_track_iff (hw : m.devWan .devMode = some w) (pub : Tuple) :
    (m.track .devMode pub pub.src).Tracked pub ↔ m.replyTrack.Accepts pub.replyKey := by
  rw [Maps.Tracked, get_replyTrack_track hw]
  constructor
  · intro h
    split_ifs at h with hkey
    · exact hkey.2
    · exact BoundedMap.accepts_of_get h
  · intro h
    exact if_pos ⟨rfl, h⟩

end Tracking

/-- From the translation of a packet on, `REPLY_TRACK` names the flow's own
proxy-source address in every state exactly if the map took the entry and no
later packet shares the reply key; replies are then returned to the flow. -/
theorem reply_track_own_iff (m : Maps) (flow : Flow) (w o a : Ipv6Addr) (f : Framing)
    (d : List Byte) (ds : List (List Byte))
    (hwan : m.devWanIpv6[0]! = w) (hw : w ≠ Vector.replicate 16 0)
    (hkey : m.obfsKeys[0]! ≠ ⟨Vector.replicate 16 0, Vector.replicate 16 0⟩)
    (hnat : m.natMap.get flow.domainId = some ⟨o⟩)
    (ha : encodeProxySrc flow.clientId flow.domainId flow.ctx m.obfsKeys[0]! = some a)
    (hc : Carries f flow.inner d) :
    let key : ReplyTrackKey := ⟨o, toBe16 flow.dstPort, toBe16 flow.srcPort, flow.proto.number⟩
    let safe := m.replyTrack.Accepts key ∧ ∀ d' ∈ ds, ¬ SharesReplyKey m flow d'
    ((∀ es, es <+: ds → (outboundRun m (d :: es)).replyTrack.get key = some ⟨a⟩) ↔ safe) ∧
    (safe → ¬ HasPrefix proxySrcPrefix w → m.xfrmIfindex[0]! ≠ 0 → ∀ es, es <+: ds → ∀ r,
      Carries .ethernet ⟨o, w, flow.dstPort, flow.srcPort, flow.proto⟩ r →
        ∃ r₁ m₁ r₂, exec (xdpWan .devMode) ⟨r, outboundRun m (d :: es)⟩ = (.ok .pass, ⟨r₁, m₁⟩) ∧
          exec (tcIngressWan .devMode) ⟨r₁, m₁⟩ =
            (.ok (.redirect m.xfrmIfindex[0]!), ⟨r₂, m₁⟩) ∧
          Carries .ethernet flow.inner.mirror r₂) := by
  intro key safe
  let pub : Tuple := ⟨a, o, flow.srcPort, flow.dstPort, flow.proto⟩
  have hdev : m.devWan .devMode = some w := Maps.devWan_devMode_iff.mpr ⟨hwan, hw⟩
  have hpub : m.publish flow = some pub :=
    (Maps.publish_eq_some_iff_of_key rfl hkey hnat).mpr ha
  have hfirst : outboundStep m d = m.track .devMode pub pub.src :=
    outboundStep_of_publish hc (hasPrefix_syntheticIpv6 flow.domainId)
      (by rw [Flow.ofInner_inner]; exact hpub)
  have hiff := tracked_outboundRun_iff (m := outboundStep m d)
    (by rw [devWan_outboundStep]; exact hdev) (by rw [publish_outboundStep]; exact hpub) ds
  rw [sharesReplyKey_outboundStep, hfirst, tracked_track_iff hdev, ← hfirst] at hiff
  refine ⟨hiff, ?_⟩
  intro hsafe hpre hi es hes r hr
  obtain ⟨rt', hrun⟩ := outboundRun_frame m (d :: es)
  have htracked : (outboundRun m (d :: es)).Tracked pub := hiff.mpr hsafe es hes
  rw [hrun] at htracked ⊢
  obtain ⟨r₁, m₁, r₂, hxdp, hback, hc₂, -⟩ :=
    tracked_reply_returns (m := { m with replyTrack := rt' }) hpub hdev hpre htracked hi hr
  exact ⟨r₁, m₁, r₂, hxdp, hback, hc₂⟩

/-- A packet of the second client of the pool to the same domain. -/
def demoNeighbour (srcPort : BitVec 16) : List Byte :=
  packetOf .rawIpv6 ⟨clientVipFromId24 0x10001, syntheticIpv6 7, srcPort, 443, .udp⟩ []

theorem reply_track_own_demo :
    (outboundRun demoWanMaps [demoQuery, demoNeighbour 50001]).replyTrack.get
      ⟨demoOrigin, toBe16 443, toBe16 50000, 17⟩ = some ⟨demoUdpAddr⟩ := by
  have hother : ¬ SharesReplyKey demoWanMaps demoUdpFlow (demoNeighbour 50001) := by
    rintro ⟨f, t, hc, -, -, hport, -⟩
    obtain ⟨-, rfl⟩ := hc.unique (carries_packetOf _ _ _)
    exact absurd hport (by decide)
  have haccepts : demoWanMaps.replyTrack.Accepts
      ⟨demoOrigin, toBe16 443, toBe16 50000, 17⟩ := by decide
  refine (reply_track_own_iff demoWanMaps demoUdpFlow demoWan demoOrigin demoUdpAddr .rawIpv6
    demoQuery [demoNeighbour 50001] rfl (by decide) (by decide) (by decide) (by decide +kernel)
    (by decide +kernel)).1.mpr ⟨haccepts, ?_⟩ _ (List.prefix_refl _)
  simpa using hother

/-- A second client that uses the same source port takes the entry over, and
the answer to the first client is returned to the second. -/
theorem reply_track_taken_over :
    let before := outboundRun demoWanMaps [demoQuery]
    let after := outboundRun demoWanMaps [demoQuery, demoNeighbour 50000]
    let key : ReplyTrackKey := ⟨demoOrigin, toBe16 443, toBe16 50000, 17⟩
    before.replyTrack.get key = some ⟨demoUdpAddr⟩ ∧
      after.replyTrack.get key ≠ some ⟨demoUdpAddr⟩ ∧
      (exec (tcIngressWan .devMode) (exec (xdpWan .devMode) ⟨demoWanReply, after⟩).2).1 =
        .ok (.redirect 5) ∧
      Carries .ethernet ⟨syntheticIpv6 7, clientVipFromId24 0x10001, 443, 50000, .udp⟩
        (exec (tcIngressWan .devMode)
          (exec (xdpWan .devMode) ⟨demoWanReply, after⟩).2).2.data := by
  decide +kernel

end PrototypeNet
