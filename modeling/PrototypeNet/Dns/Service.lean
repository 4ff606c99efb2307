import PrototypeNet.Dns.Replies
import PrototypeNet.Control.Freshness
import PrototypeNet.Daemon.Loader

/-!
# From a DNS answer to the origin and back

The pieces put together.  A client asks the DNS server for a name and sends
packets to the address it is told.  The daemon has copied the row behind this
address into the map of the packet programs, so the packets leave for the
stored origin, and what the origin replies reaches the client as a reply from
the address it knows, also when the control plane has worked on in between.
-/

namespace PrototypeNet

open Runs ByteWords Fallible

variable {Peer : Type} {wire : Wire} {maxConcurrent : ℕ} {printsAlike : Ipv6Addr → Bool}

/-- The steps of the control plane behind the server keep up. -/
def ServerKeepsUp (wire : Wire) (s : Server Peer) (e : ServerEvent Peer) : Prop :=
  ∀ d ∈ e.behind wire s, KeepsUp s.control d

instance (wire : Wire) (s : Server Peer) (e : ServerEvent Peer) :
    Decidable (ServerKeepsUp wire s e) :=
  Option.decidableForallMem _

/-- Nothing is left for the listener to do. -/
def State.Quiet (s : State) : Prop :=
  ∃ resolver, s.daemon = .running ⟨some [], .idle⟩ resolver

/-- A step of the server leaves the control plane alone or is one of its steps. -/
theorem serverStep_control {s s' : Server Peer} {e : ServerEvent Peer}
    (hs : serverStep wire maxConcurrent printsAlike s e = some s') :
    s'.control = s.control ∨
      ∃ d ∈ e.behind wire s, step printsAlike s.control d = some s'.control := by
  have hproject := (serverStep_sound hs).projects
  cases hd : e.behind wire s with
  | none =>
      rw [hd] at hproject
      exact .inl (Option.some.inj hproject).symm
  | some d =>
      rw [hd] at hproject
      obtain ⟨u, hu, hnil⟩ := play_cons hproject
      rw [Option.some.inj hnil] at hu
      exact .inr ⟨d, rfl, hu⟩

theorem serverStep_tracked {s s' : Server Peer} {e : ServerEvent Peer}
    (h : s.control.Tracked) (hG : ServerKeepsUp wire s e)
    (hs : serverStep wire maxConcurrent printsAlike s e = some s') : s'.control.Tracked := by
  rcases serverStep_control hs with heq | ⟨d, hd, hstep⟩
  · rwa [heq]
  · exact step_tracked h (hG d hd) hstep

theorem serverStep_grows {s s' : Server Peer} {e : ServerEvent Peer}
    (hs : serverStep wire maxConcurrent printsAlike s e = some s') :
    s.control.domains.allocation ≤ s'.control.domains.allocation := by
  rcases serverStep_control hs with heq | ⟨d, hd, hstep⟩
  · rw [heq]
  · exact (step_grows hstep).allocation

/-- A row that is still there under its name has kept its id. -/
theorem domainId_of_play {es : List (ServerEvent Peer)} {s s' : Server Peer}
    (h : play (serverStep wire maxConcurrent printsAlike) s es = some s') {row row' : Row}
    (hrow : row ∈ s.control.domains.rows) (hrow' : row' ∈ s'.control.domains.rows)
    (hdomain : row'.domain = row.domain) : row'.domainId = row.domainId := by
  have hgrows : s.control.domains.allocation ≤ s'.control.domains.allocation :=
    play_invariant (fun u ↦ s.control.domains.allocation ≤ u.control.domains.allocation)
      (fun _ _ _ hI hs ↦ le_trans hI (serverStep_grows hs)) (le_refl _) h
  have hid : row.domainId ∈ s.control.domains.allocation row.domain :=
    Domains.mem_allocation_iff.mpr ⟨row, hrow, rfl, rfl⟩
  have hid' : row'.domainId ∈ s'.control.domains.allocation row.domain :=
    Domains.mem_allocation_iff.mpr ⟨row', hrow', hdomain, rfl⟩
  exact Option.mem_unique hid' (hgrows _ _ hid)

/-- The maps of the packet programs: what the loader has written, and the map
that the control plane maintains. -/
def Server.maps (s : Server Peer) (loaded : Maps) : Maps :=
  { loaded with natMap := s.control.natMap }

theorem publish_maps {s : Server Peer} {loaded : Maps} {key : ProxySrcKey} {a o : Ipv6Addr}
    (flow : Flow) (hloaded : loaded.obfsKeys[0]! = key)
    (hkey : key ≠ ⟨Vector.replicate 16 0, Vector.replicate 16 0⟩)
    (hnat : s.control.natMap.get flow.domainId = some ⟨o⟩) :
    (s.maps loaded).publish flow = some ⟨a, o, flow.srcPort, flow.dstPort, flow.proto⟩ ↔
      flow.proxySrc key = some a :=
  Maps.publish_eq_some_iff_of_key hloaded hkey hnat

/-- An address that was sent for a name leads to the origin stored for it, and
the origin's replies lead back, for as long as the row keeps this origin: every
run in which the daemon keeps up, seen whenever the listener has nothing left
to do. -/
theorem answered_name_is_served (wire : Wire) (read : List Byte → Option Message)
    (hread : ∀ m packet, wire.toVec m = some packet → read packet = some m)
    (maxConcurrent lastValue : ℕ) (printsAlike : Ipv6Addr → Bool)
    (es es' : List (ServerEvent Peer)) (s s' : Server Peer)
    (h : play (serverStep wire maxConcurrent printsAlike) (.init maxConcurrent lastValue) es =
      some s)
    (h' : play (serverStep wire maxConcurrent printsAlike) s es' = some s')
    (hG : Along (serverStep wire maxConcurrent printsAlike) (ServerKeepsUp wire)
      (.init maxConcurrent lastValue) (es ++ es'))
    (hquiet : s.control.Quiet) (hquiet' : s'.control.Quiet) (host : Host)
    (tunnelIface wanIface : String) (key : ProxySrcKey) (prevKey : Option ProxySrcKey)
    (loaded : Maps)
    (hload : loadAndAttach .production host tunnelIface wanIface key prevKey = some loaded)
    (hkey : key ≠ ⟨Vector.replicate 16 0, Vector.replicate 16 0⟩)
    (hif : loaded.xfrmIfindex[0]! ≠ 0) (p : Sent Peer) (hp : p ∈ s.sent) (m : Message)
    (hm : read p.packet = some m) (r : Record) (hr : r ∈ m.answers) :
    ∃ row ∈ s.control.domains.rows, row.domain = normalize r.name ∧
      ∀ clientId srcPort dstPort proto c, row.domainId ≤ 0xffffff → clientId ≤ 0xffffff →
        Carries .rawIpv6 ⟨clientVipFromId24 clientId, r.aaaa, srcPort, dstPort, proto⟩ c →
        ∃ a c', exec (tcIngress .production) ⟨c, s.maps loaded⟩ =
            (.ok .ok, ⟨c', s.maps loaded⟩) ∧
          Carries .rawIpv6 ⟨a, row.originIpv6, srcPort, dstPort, proto⟩ c' ∧
          ∀ row' ∈ s'.control.domains.rows, row'.domain = row.domain →
            row'.originIpv6 = row.originIpv6 →
            ∀ d, Carries .ethernet ⟨row.originIpv6, a, dstPort, srcPort, proto⟩ d →
              exec (xdpWan .production) ⟨d, s'.maps loaded⟩ =
                (.ok .pass, ⟨d, s'.maps loaded⟩) ∧
              ∃ d', exec (tcIngressWan .production) ⟨d, s'.maps loaded⟩ =
                  (.ok (.redirect loaded.xfrmIfindex[0]!), ⟨d', s'.maps loaded⟩) ∧
                Carries .ethernet
                  ⟨r.aaaa, clientVipFromId24 clientId, dstPort, srcPort, proto⟩ d' := by
  have hinit : (Server.init maxConcurrent lastValue : Server Peer).control.Tracked := by rintro ⟨⟩
  obtain ⟨hG₁, hG₂⟩ := hG.append h
  have htracked := play_invariant_along _ (fun u : Server Peer ↦ u.control.Tracked)
    (fun _ _ _ hI he hs ↦ serverStep_tracked hI he hs) hinit hG₁ h
  have htracked' := play_invariant_along _ (fun u : Server Peer ↦ u.control.Tracked)
    (fun _ _ _ hI he hs ↦ serverStep_tracked hI he hs) htracked hG₂ h'
  have hanswering := answering_of_play h
  obtain ⟨-, -, hloaded, -⟩ := loadAndAttach_eq_some hload
  obtain ⟨data, request, m', -, hpacket, -, hans⟩ := isReply_of_sent hanswering hp
  cases hm.symm.trans (hread m' _ hpacket)
  obtain ⟨-, -, -, -, -, -, i, hi, haaaa⟩ := hans r hr
  obtain ⟨row, hrow, hdomain, rfl⟩ := Domains.mem_allocation_iff.mp hi
  refine ⟨row, hrow, hdomain, ?_⟩
  intro clientId srcPort dstPort proto c hd hc hcarries
  rw [haaaa] at hcarries ⊢
  let flow : Flow := ⟨clientId, row.domainId, srcPort, dstPort, proto⟩
  obtain ⟨resolver, hdaemon⟩ := hquiet
  have hnat := get_of_tracked htracked hdaemon row hrow
  obtain ⟨a, ha⟩ : ∃ a, flow.proxySrc key = some a := Option.isSome_iff_exists.mp
    ((isSome_encodeProxySrc_iff clientId row.domainId flow.ctx key).mpr ⟨hc, hd⟩)
  obtain ⟨c', hout, hc'⟩ := tcIngress_carries (s := ⟨c, s.maps loaded⟩)
    ((publish_maps flow hloaded hkey hnat).mpr ha) hcarries
  refine ⟨a, c', hout, hc', ?_⟩
  intro row' hrow' hname horigin d hreply
  obtain ⟨resolver', hdaemon'⟩ := hquiet'
  have hnat' := get_of_tracked htracked' hdaemon' row' hrow'
  rw [domainId_of_play h' hrow hrow' hname, horigin] at hnat'
  obtain ⟨maps, hpass, hmaps⟩ := xdpWan_passes_return .production (s := ⟨d, s'.maps loaded⟩)
    hreply.1.2 hreply.2 (hasPrefix_of_encode ha)
  rw [hmaps rfl] at hpass
  obtain ⟨d', hback, hd'⟩ := tcIngressWan_carries .production (s := ⟨d, s'.maps loaded⟩)
    ((publish_maps flow hloaded hkey hnat').mpr ha) hreply
  have hxfrm : (s'.maps loaded).xfrmIfindex = loaded.xfrmIfindex := rfl
  simp only [hxfrm, if_pos hif] at hback
  exact ⟨hpass, d', hback, hd'⟩

def demoService : List (ServerEvent ℕ) :=
  [.main .start, .main .select, .main .spawn, .listener .listen, .recv [1] 10, .poll 0,
    .call 0 .findByDomain, .call 0 (.lookupAaaa (.found demoOrigin)), .call 0 .nextDomainId,
    .call 0 .insertDomain, .send 0 true, .listener .recv, .listener .fetch, .listener .store]

theorem answered_name_is_served_demo :
    ∃ s loaded a c', play (serverStep demoWire 1 fun _ ↦ true) (.init 1 0) demoService = some s ∧
      exec (tcIngress .production)
        ⟨packetOf .rawIpv6 ⟨clientVipFromId24 100, syntheticIpv6 1, 50000, 443, .tcp⟩ [],
          s.maps loaded⟩ = (.ok .ok, ⟨c', s.maps loaded⟩) ∧
      Carries .rawIpv6 ⟨a, demoOrigin, 50000, 443, .tcp⟩ c' := by
  have hrun : (play (serverStep demoWire 1 fun _ ↦ true) (.init 1 0) demoService).map
      (fun s ↦ (s.control.daemon, s.sent,
        s.control.domains.rows.map fun row ↦ (row.domainId, row.originIpv6))) =
      some (.running ⟨some [], .idle⟩ .idle, [⟨0, 10, [1]⟩], [(1, demoOrigin)]) := by
    decide +kernel
  obtain ⟨s, hs, hsome⟩ := Option.map_eq_some_iff.mp hrun
  obtain ⟨hdaemon, hrest⟩ := Prod.mk.inj hsome
  obtain ⟨hsent, hrows⟩ := Prod.mk.inj hrest
  have hload : loadAndAttach .production demoHost "xfrm0" "enp0s3" testKey none =
      some { Maps.zeroed with
        xfrmIfindex := #v[5]
        obfsKeys := #v[testKey, ⟨Vector.replicate 16 0, Vector.replicate 16 0⟩] } := rfl
  obtain ⟨row, hrow, -, hserved⟩ := answered_name_is_served demoWire demoRead demoRead_toVec 1 0 _
    demoService [] s s hs rfl (by decide +kernel) ⟨_, hdaemon⟩ ⟨_, hdaemon⟩ demoHost "xfrm0"
    "enp0s3" testKey none _ hload (by decide) (by decide) ⟨0, 10, [1]⟩ (by simp [hsent])
    (demoAnswered 1) rfl _ (List.mem_singleton_self _)
  have hmem : (row.domainId, row.originIpv6) ∈ [(1, demoOrigin)] := by
    rw [← hrows]
    exact List.mem_map.mpr ⟨row, hrow, rfl⟩
  obtain ⟨hid, horigin⟩ := Prod.mk.inj (List.mem_singleton.mp hmem)
  rw [hid, horigin] at hserved
  obtain ⟨a, c', hout, hc', -⟩ := hserved 100 50000 443 .tcp _ (by decide) (by decide)
    (carries_packetOf _ _ [])
  exact ⟨s, _, a, c', hs, hout, hc'⟩

end PrototypeNet
