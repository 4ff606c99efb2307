import PrototypeNet.Nat66.Refinement

/-!
# Round trips through the translator

What `tc_ingress` sends out comes back: a reply to the translated packet is
turned into a packet from the synthetic address to the client.  Conversely,
whatever `tc_ingress_wan` redirects is the mirror image of a translation that
`tc_ingress` itself would make under the same maps.
-/

namespace PrototypeNet

open ByteWords Buffer Fallible

/-! ## Packets exist for every tuple -/

def linkHeader : Framing → List Byte
  | .rawIpv6 => []
  | .ethernet => List.replicate 12 0 ++ etherTypeIpv6.toList

/-- A packet with the given headers: all other header fields are zero, up to
the version. -/
def packetOf (f : Framing) (t : Tuple) (payload : List Byte) : List Byte :=
  linkHeader f ++ ([0x60, 0, 0, 0, 0, 0, t.proto.number, 64] ++ (t.src.toList ++ (t.dst.toList ++
    ((toBeBytes 2 t.srcPort).toList ++ ((toBeBytes 2 t.dstPort).toList ++
      (List.replicate (t.proto.hdrLen - 4) 0 ++ payload))))))

theorem length_linkHeader (f : Framing) : (linkHeader f).length = f.offset := by
  cases f <;> rfl

theorem carries_packetOf (f : Framing) (t : Tuple) (payload : List Byte) :
    Carries f t (packetOf f t payload) := by
  have hlink := length_linkHeader f
  have hsrc : t.src.toList.length = 16 := Vector.length_toList
  have hdst : t.dst.toList.length = 16 := Vector.length_toList
  have hsp : (toBeBytes 2 t.srcPort).toList.length = 2 := Vector.length_toList
  have hdp : (toBeBytes 2 t.dstPort).toList.length = 2 := Vector.length_toList
  have hmin := t.proto.udpHdrLen_le_hdrLen
  refine ⟨?_, ?_⟩
  · cases f with
    | rawIpv6 => rfl
    | ethernet =>
        refine ⟨?_, rfl⟩
        change some (0#8 >>> 4) ≠ some 6
        decide
  · exact
    { complete := by
        simp only [packetOf, List.length_append, hlink, hsrc, hdst, hsp, hdp,
          List.length_replicate, List.length_cons, List.length_nil, ipv6HdrLen]
        omega
      nextHdr := by
        rw [packetOf, window_append_right _ _ hlink]
        rfl
      src := by
        rw [packetOf, window_append_right _ _ hlink,
          window_append_right (k := 8) (i := 0) _ _ rfl, window_append_left _ _ hsrc]
      dst := by
        rw [packetOf, window_append_right _ _ hlink,
          window_append_right (k := 8) (i := 16) _ _ rfl,
          window_append_right (i := 0) _ _ hsrc, window_append_left _ _ hdst]
      srcPort := by
        rw [packetOf, window_append_right _ _ hlink, ipv6HdrLen,
          window_append_right (k := 8) (i := 32) _ _ rfl,
          window_append_right (i := 16) _ _ hsrc, window_append_right (i := 0) _ _ hdst,
          window_append_left _ _ hsp]
      dstPort := by
        rw [packetOf, Nat.add_assoc, window_append_right _ _ hlink, ipv6HdrLen,
          window_append_right (k := 8) (i := 34) _ _ rfl,
          window_append_right (i := 18) _ _ hsrc, window_append_right (i := 2) _ _ hdst,
          window_append_right (i := 0) _ _ hsp, window_append_left _ _ hdp] }

theorem Framing.Matches.unique {f f' : Framing} {d : List Byte} (h : f.Matches d)
    (h' : f'.Matches d) : f = f' := by
  cases f with
  | rawIpv6 =>
      cases f' with
      | rawIpv6 => rfl
      | ethernet => exact absurd h h'.1
  | ethernet =>
      cases f' with
      | rawIpv6 => exact absurd h' h.1
      | ethernet => rfl

/-- A packet has one framing and carries one tuple only. -/
theorem Carries.unique {f f' : Framing} {t t' : Tuple} {d : List Byte}
    (h : Carries f t d) (h' : Carries f' t' d) : f = f' ∧ t = t' := by
  obtain rfl := h.1.unique h'.1
  obtain ⟨-, h⟩ := h
  obtain ⟨-, h'⟩ := h'
  have hproto : t.proto = t'.proto := by
    have hn : [t.proto.number] = [t'.proto.number] := h.nextHdr.symm.trans h'.nextHdr
    revert hn
    cases t.proto <;> cases t'.proto <;> decide
  have hsrc : t.src = t'.src := Vector.toList_inj.mp (h.src.symm.trans h'.src)
  have hdst : t.dst = t'.dst := Vector.toList_inj.mp (h.dst.symm.trans h'.dst)
  have hsp : t.srcPort = t'.srcPort :=
    toBeBytes_injective (by norm_num) (Vector.toList_inj.mp (h.srcPort.symm.trans h'.srcPort))
  have hdp : t.dstPort = t'.dstPort :=
    toBeBytes_injective (by norm_num) (Vector.toList_inj.mp (h.dstPort.symm.trans h'.dstPort))
  obtain ⟨src, dst, sp, dp, proto⟩ := t
  simp only at hproto hsrc hdst hsp hdp
  rw [hproto, hsrc, hdst, hsp, hdp]
  exact ⟨rfl, rfl⟩

/-! ## The two programs undo each other -/

section Pairing

variable {f : Framing} {t pub : Tuple} {flow : Flow} {s : Ctx}

theorem Flow.le_of_publish {m : Maps} (h : m.publish flow = some pub) :
    flow.clientId ≤ 0xffffff ∧ flow.domainId ≤ 0xffffff := by
  obtain ⟨key, a, o, -, -, ha, -⟩ := (m.publish_eq_some_iff flow pub).mp h
  obtain ⟨hc, hd, -⟩ := (encodeProxySrc_eq_some_iff _ _ _ _ _).mp ha
  exact ⟨hc, hd⟩

/-- Outbound: a packet of a published flow leaves as its public tuple. -/
theorem tcIngress_carries (hpub : s.maps.publish flow = some pub)
    (h : Carries f flow.inner s.data) :
    ∃ d', exec (tcIngress .production) s = (.ok .ok, ⟨d', s.maps⟩) ∧ Carries f pub d' := by
  obtain ⟨key, a, o, -, -, -, hshape⟩ := (s.maps.publish_eq_some_iff flow pub).mp hpub
  obtain ⟨d', hexec, hr⟩ := tcIngress_publishes h (hasPrefix_syntheticIpv6 _)
    (by rwa [Flow.ofInner_inner])
  refine ⟨d', hexec, ?_⟩
  have hc := hr.carries h
  subst hshape
  exact hc

/-- Return: a reply to a public tuple reaches the client as a reply of its
flow, unless no tunnel interface is configured. -/
theorem tcIngressWan_carries (build : Build) (hpub : s.maps.publish flow = some pub)
    (h : Carries f pub.mirror s.data) :
    ∃ d', exec (tcIngressWan build) s =
        (.ok (if s.maps.xfrmIfindex[0]! ≠ 0 then .redirect s.maps.xfrmIfindex[0]! else .shot),
          ⟨d', s.maps⟩) ∧
      Carries f flow.inner.mirror d' := by
  obtain ⟨key, a, o, -, -, -, hshape⟩ := (s.maps.publish_eq_some_iff flow pub).mp hpub
  obtain ⟨d', hexec, hr⟩ := tcIngressWan_resolves build h
    ((s.maps.resolve_iff_publish flow pub).mpr hpub)
  refine ⟨d', hexec, ?_⟩
  have hc := hr.carries h
  subst hshape
  exact hc

theorem exists_publish_of_redirect {build : Build} {i : BitVec 32} {s' : Ctx}
    (h : exec (tcIngressWan build) s = (.ok (.redirect i), s')) :
    ∃ f t flow, Carries f t s.data ∧ s.maps.publish flow = some t.mirror := by
  rcases tcIngressWan_cases build s with hok | ⟨f, t, hc, hpre⟩
  · rw [h] at hok
    cases hok
  · cases hres : s.maps.resolve t.mirror with
    | none =>
        rw [tcIngressWan_drops build hc hpre hres] at h
        cases h
    | some flow => exact ⟨f, t, flow, hc, (s.maps.resolve_iff_publish flow t.mirror).mp hres⟩

/-- `tc_ingress` translates along the pairing. -/
theorem tcIngress_translates_iff (h : Carries f flow.inner s.data) :
    (∃ d', exec (tcIngress .production) s = (.ok .ok, ⟨d', s.maps⟩) ∧ Carries f pub d') ↔
      pub ∈ s.maps.pairing flow := by
  rw [Maps.mem_pairing_iff]
  constructor
  · rintro ⟨d', hexec, hc⟩
    cases hpub : s.maps.publish flow with
    | none =>
        rw [tcIngress_drops .production h (hasPrefix_syntheticIpv6 _)
          (by rwa [Flow.ofInner_inner])] at hexec
        cases hexec
    | some pub' =>
        obtain ⟨d'', hexec', hc'⟩ := tcIngress_carries hpub h
        rw [hexec] at hexec'
        cases hexec'
        rw [(hc'.unique hc).2]
  · intro hpub
    exact tcIngress_carries hpub h

/-- `tc_ingress_wan` translates against the pairing: a reply is redirected to the
client of the flow whose public tuple it answers. -/
theorem tcIngressWan_redirects_iff (build : Build) (hi : s.maps.xfrmIfindex[0]! ≠ 0)
    (h : Carries f t s.data) :
    (∃ d', exec (tcIngressWan build) s =
        (.ok (.redirect s.maps.xfrmIfindex[0]!), ⟨d', s.maps⟩) ∧ Carries f flow.inner.mirror d') ↔
      flow ∈ s.maps.pairing.symm t.mirror := by
  rw [Maps.mem_pairing_symm_iff]
  constructor
  · rintro ⟨d', hexec, hc⟩
    obtain ⟨f', t', flow', ht', hpub⟩ := exists_publish_of_redirect hexec
    obtain ⟨rfl, rfl⟩ := h.unique ht'
    obtain ⟨d'', hexec', hc'⟩ := tcIngressWan_carries build hpub h
    rw [if_pos hi, hexec] at hexec'
    cases hexec'
    have hinner : flow'.inner = flow.inner := congrArg Tuple.mirror (hc'.unique hc).2
    rw [← Flow.inner_injective hinner]
    exact hpub
  · intro hpub
    obtain ⟨d', hexec, hc⟩ := tcIngressWan_carries build hpub h
    rw [if_pos hi] at hexec
    exact ⟨d', hexec, hc⟩

theorem Maps.publish_eq_some_iff_of_key {m : Maps} {key : ProxySrcKey} {a o : Ipv6Addr}
    (hkey : m.obfsKeys[0]! = key) (hzero : key ≠ ⟨Vector.replicate 16 0, Vector.replicate 16 0⟩)
    (hnat : m.natMap.get flow.domainId = some ⟨o⟩) :
    m.publish flow = some ⟨a, o, flow.srcPort, flow.dstPort, flow.proto⟩ ↔
      flow.proxySrc key = some a := by
  have hactive : m.activeKey = some key := by
    rw [Maps.activeKey_of_not_isZero, hkey]
    rwa [hkey, ProxySrcKey.isZero_iff]
  have ho : m.origin flow.domainId = some o := by
    rw [Maps.origin, hnat, Option.map_some]
  rw [Maps.publish_eq_some_iff]
  constructor
  · rintro ⟨key', a', o', hkey', -, ha, heq⟩
    rw [hactive] at hkey'
    cases hkey'
    cases heq
    exact ha
  · intro ha
    exact ⟨key, a, o, hactive, ho, ha, rfl⟩

theorem Maps.exists_publish {m : Maps} {o : Ipv6Addr}
    (hc : flow.clientId ≤ 0xffffff) (hd : flow.domainId ≤ 0xffffff)
    (hnat : m.natMap.get flow.domainId = some ⟨o⟩)
    (hkey : m.obfsKeys[0]! ≠ ⟨Vector.replicate 16 0, Vector.replicate 16 0⟩) :
    ∃ a, m.publish flow = some ⟨a, o, flow.srcPort, flow.dstPort, flow.proto⟩ ∧
      HasPrefix proxySrcPrefix a := by
  obtain ⟨a, ha⟩ := Option.isSome_iff_exists.mp
    ((isSome_encodeProxySrc_iff flow.clientId flow.domainId flow.ctx m.obfsKeys[0]!).mpr ⟨hc, hd⟩)
  exact ⟨a, (Maps.publish_eq_some_iff_of_key rfl hkey hnat).mpr ha, hasPrefix_of_encode ha⟩

end Pairing

/-- A client's packet leaves for the origin, and every reply to what left comes
back to the client as a reply from the synthetic address. -/
theorem nat66_round_trip (m : Maps) (clientId domainId i : BitVec 32) (o : Ipv6Addr)
    (srcPort dstPort : BitVec 16) (proto : L4Proto) (p : List Byte)
    (hc : clientId ≤ 0xffffff) (hd : domainId ≤ 0xffffff)
    (hp : Carries .rawIpv6
      ⟨clientVipFromId24 clientId, syntheticIpv6 domainId, srcPort, dstPort, proto⟩ p)
    (hnat : m.natMap.get domainId = some ⟨o⟩)
    (hkey : m.obfsKeys[0]! ≠ ⟨Vector.replicate 16 0, Vector.replicate 16 0⟩)
    (hif : m.xfrmIfindex[0]! = i) (hi : i ≠ 0) :
    ∃ a p', exec (tcIngress .production) ⟨p, m⟩ = (.ok .ok, ⟨p', m⟩) ∧
      Carries .rawIpv6 ⟨a, o, srcPort, dstPort, proto⟩ p' ∧
      ∀ r, Carries .ethernet ⟨o, a, dstPort, srcPort, proto⟩ r →
        exec (xdpWan .production) ⟨r, m⟩ = (.ok .pass, ⟨r, m⟩) ∧
        ∃ r', exec (tcIngressWan .production) ⟨r, m⟩ = (.ok (.redirect i), ⟨r', m⟩) ∧
          Carries .ethernet
            ⟨syntheticIpv6 domainId, clientVipFromId24 clientId, dstPort, srcPort, proto⟩ r' := by
  let flow : Flow := ⟨clientId, domainId, srcPort, dstPort, proto⟩
  obtain ⟨a, hpub, hpre⟩ : ∃ a, m.publish flow = some ⟨a, o, srcPort, dstPort, proto⟩ ∧
      HasPrefix proxySrcPrefix a := Maps.exists_publish hc hd hnat hkey
  obtain ⟨p', hout, hp'⟩ := tcIngress_carries (s := ⟨p, m⟩) hpub hp
  refine ⟨a, p', hout, hp', ?_⟩
  intro r hr
  obtain ⟨m', hpass, hm'⟩ := xdpWan_passes_return .production (s := ⟨r, m⟩) hr.1.2 hr.2 hpre
  rw [hm' rfl] at hpass
  obtain ⟨r', hback, hr'⟩ := tcIngressWan_carries .production (s := ⟨r, m⟩) hpub hr
  simp only [hif, if_pos hi] at hback
  exact ⟨hpass, r', hback, hr'⟩

def demoOrigin : Ipv6Addr := Vector.replicate 16 0x20

def demoMaps : Maps :=
  { Maps.zeroed with
    natMap := (BoundedMap.empty.insert 7 ⟨demoOrigin⟩).getD .empty
    xfrmIfindex := #v[5]
    obfsKeys := #v[testKey, ⟨Vector.replicate 16 0, Vector.replicate 16 0⟩] }

theorem nat66_round_trip_demo :
    ∃ a p', exec (tcIngress .production)
        ⟨packetOf .rawIpv6 ⟨clientVipFromId24 100, syntheticIpv6 7, 50000, 443, .tcp⟩ [1, 2, 3],
          demoMaps⟩ = (.ok .ok, ⟨p', demoMaps⟩) ∧
      Carries .rawIpv6 ⟨a, demoOrigin, 50000, 443, .tcp⟩ p' ∧
      ∀ r, Carries .ethernet ⟨demoOrigin, a, 443, 50000, .tcp⟩ r →
        exec (xdpWan .production) ⟨r, demoMaps⟩ = (.ok .pass, ⟨r, demoMaps⟩) ∧
        ∃ r', exec (tcIngressWan .production) ⟨r, demoMaps⟩ =
            (.ok (.redirect 5), ⟨r', demoMaps⟩) ∧
          Carries .ethernet
            ⟨syntheticIpv6 7, clientVipFromId24 100, 443, 50000, .tcp⟩ r' :=
  nat66_round_trip demoMaps 100 7 5 demoOrigin 50000 443 .tcp _
    (by decide) (by decide) (carries_packetOf _ _ _) (by decide) (by decide) (by decide)
    (by decide)

/-- Whatever is redirected towards a client mirrors a translation that
`tc_ingress` makes under the same maps. -/
theorem return_path_sound (s s' : Ctx) (i : BitVec 32)
    (h : exec (tcIngressWan .production) s = (.ok (.redirect i), s')) :
    ∃ off t clientId domainId, exec ipv6Offset s = (.ok off, s) ∧ HeaderAt off t s.data ∧
      clientId ≤ 0xffffff ∧ domainId ≤ 0xffffff ∧ s.maps.natMap.get domainId = some ⟨t.src⟩ ∧
      (∀ f, ∃ p, Carries f
        ⟨clientVipFromId24 clientId, syntheticIpv6 domainId, t.dstPort, t.srcPort, t.proto⟩ p) ∧
      (∀ f p, Carries f
          ⟨clientVipFromId24 clientId, syntheticIpv6 domainId, t.dstPort, t.srcPort, t.proto⟩ p →
        ∃ p', exec (tcIngress .production) ⟨p, s.maps⟩ = (.ok .ok, ⟨p', s.maps⟩) ∧
          Carries f ⟨t.dst, t.src, t.dstPort, t.srcPort, t.proto⟩ p') ∧
      s'.maps = s.maps ∧
      HeaderAt off
        ⟨syntheticIpv6 domainId, clientVipFromId24 clientId, t.srcPort, t.dstPort, t.proto⟩
        s'.data := by
  obtain ⟨f, t, flow, hc, hpub⟩ := exists_publish_of_redirect h
  obtain ⟨hcid, hdid⟩ := Flow.le_of_publish hpub
  obtain ⟨key, a, o, -, ho, -, hshape⟩ := (s.maps.publish_eq_some_iff flow t.mirror).mp hpub
  obtain ⟨src, dst, srcPort, dstPort, proto⟩ := t
  cases hshape
  obtain ⟨⟨origin⟩, hnat, rfl⟩ := Option.map_eq_some_iff.mp ho
  obtain ⟨d', hback, hc'⟩ := tcIngressWan_carries .production hpub hc
  rw [h] at hback
  obtain ⟨-, rfl⟩ := Prod.mk.inj hback
  exact ⟨f.offset, _, flow.clientId, flow.domainId, exec_ipv6Offset hc.1, hc.2, hcid, hdid, hnat,
    fun f' ↦ ⟨_, carries_packetOf f' flow.inner []⟩,
    fun f' p hp ↦ tcIngress_carries (s := ⟨p, s.maps⟩) hpub hp, rfl, hc'.2⟩

def demoFlow : Flow := ⟨100, 7, 50000, 443, .tcp⟩

def demoAddr : Ipv6Addr :=
  (demoFlow.proxySrc testKey).getD (Vector.replicate 16 0)

theorem publish_demoFlow {nat : NatMap} {o : Ipv6Addr} (h : nat.get 7 = some ⟨o⟩) :
    Maps.publish { demoMaps with natMap := nat } demoFlow =
      some ⟨demoAddr, o, 50000, 443, .tcp⟩ := by
  have hkey : ({ demoMaps with natMap := nat } : Maps).obfsKeys[0]! = testKey := rfl
  have hsrc : demoFlow.proxySrc testKey = some demoAddr := by decide +kernel
  exact (Maps.publish_eq_some_iff_of_key hkey (by decide) h).mpr hsrc

def demoReply : List Byte :=
  packetOf .ethernet ⟨demoOrigin, demoAddr, 443, 50000, .tcp⟩ []

theorem return_path_sound_demo :
    ∃ s', exec (tcIngressWan .production) ⟨demoReply, demoMaps⟩ = (.ok (.redirect 5), s') ∧
      ∃ off t clientId domainId, HeaderAt off t demoReply ∧
        demoMaps.natMap.get domainId = some ⟨t.src⟩ ∧
        HeaderAt off ⟨syntheticIpv6 domainId, clientVipFromId24 clientId, t.srcPort, t.dstPort,
          t.proto⟩ s'.data := by
  have hact : (exec (tcIngressWan .production) ⟨demoReply, demoMaps⟩).1 = .ok (.redirect 5) := by
    decide +kernel
  have hrun : exec (tcIngressWan .production) ⟨demoReply, demoMaps⟩ =
      (.ok (.redirect 5), (exec (tcIngressWan .production) ⟨demoReply, demoMaps⟩).2) := by
    rw [← hact]
  obtain ⟨off, t, c, d, -, hh, -, -, hnat, -, -, -, hh'⟩ := return_path_sound _ _ 5 hrun
  exact ⟨_, hrun, off, t, c, d, hh, hnat, hh'⟩

end PrototypeNet
