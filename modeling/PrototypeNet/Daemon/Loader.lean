import PrototypeNet.Nat66.RoundTrip

/-!
# Loading the programs and rotating the key

The daemon loads the object anew at every start, so all maps start out empty,
and then writes the tunnel interface and the keys.  A previous key goes to
slot 1 of `OBFS_KEYS`.  No packet program reads that slot, and the last part
says what this means for the flows of the previous key.
-/

namespace PrototypeNet

open ByteWords Fallible

/-! ## The loader -/

/-- Why the file with an interface index gives none: it cannot be read, or its
text, as Rust quotes it, is not a number. -/
inductive IfindexError
  | unreadable (err : String)
  | invalid (quoted err : String)
  deriving DecidableEq, Repr

/-- What the loader asks the host: the interface indexes under sysfs and the
interface addresses in the order `getifaddrs` lists them. -/
structure Host where
  sysfsIfindex : String → Except IfindexError (BitVec 32)
  ifaddrs : Except String (List (String × Option Ipv6Addr))

def IfindexError.chain (name : String) : IfindexError → ErrorChain
  | .unreadable err =>
      ["failed to read ifindex for " ++ name ++ " from /sys/class/net/" ++ name ++ "/ifindex", err]
  | .invalid quoted err => ["invalid ifindex for " ++ name ++ ": " ++ quoted, err]

def Host.ifindex (host : Host) (name : String) : Except ErrorChain (BitVec 32) :=
  (host.sysfsIfindex name).mapError (IfindexError.chain name)

def isUnicastLinkLocal (a : Ipv6Addr) : Bool :=
  a[0]! == 0xfe && a[1]! &&& 0xc0 == 0x80

def getWanIpv6 (host : Host) (iface : String) : Except ErrorChain Ipv6Addr := do
  let addrs ← host.ifaddrs.mapError fun err ↦ ["failed to get interface addresses", err]
  let global := addrs.findSome? fun (name, addr) ↦
    if name = iface then addr.filter fun ip ↦ !isUnicastLinkLocal ip else none
  match global with
  | some ip => pure ip
  | none => throw ["no global IPv6 address found on interface " ++ iface]

/-- The maps `load_and_attach` leaves behind; `none` if it fails.  Loading and
attaching the programs themselves is taken to succeed. -/
def loadAndAttach (build : Build) (host : Host) (tunnelIface wanIface : String)
    (activeKey : ProxySrcKey) (prevKey : Option ProxySrcKey) : Option Maps := do
  let m := Maps.zeroed
  let xfrmIdx ← (host.ifindex tunnelIface).toOption
  let m := { m with xfrmIfindex := m.xfrmIfindex.set! 0 xfrmIdx }
  let m := { m with obfsKeys := m.obfsKeys.set! 0 activeKey }
  let m := match prevKey with
    | some prev => { m with obfsKeys := m.obfsKeys.set! 1 prev }
    | none => m
  match build with
  | .production => pure m
  | .devMode => do
      let wanIpv6 ← (getWanIpv6 host wanIface).toOption
      pure { m with devWanIpv6 := m.devWanIpv6.set! 0 wanIpv6 }

theorem loadAndAttach_eq_some {build : Build} {host : Host} {tunnelIface wanIface : String}
    {activeKey : ProxySrcKey} {prevKey : Option ProxySrcKey} {m : Maps}
    (h : loadAndAttach build host tunnelIface wanIface activeKey prevKey = some m) :
    m.natMap = .empty ∧ host.ifindex tunnelIface = .ok m.xfrmIfindex[0]! ∧
      m.obfsKeys[0]! = activeKey ∧
      m.obfsKeys[1]! = prevKey.getD ⟨Vector.replicate 16 0, Vector.replicate 16 0⟩ := by
  unfold loadAndAttach at h
  obtain ⟨idx, hidx, h⟩ := Option.bind_eq_some_iff.mp h
  cases build with
  | production =>
      cases h
      rw [toOption_eq_some_iff.mp hidx]
      cases prevKey <;> simp [Maps.zeroed]
  | devMode =>
      obtain ⟨w, -, h⟩ := Option.bind_eq_some_iff.mp h
      cases h
      rw [toOption_eq_some_iff.mp hidx]
      cases prevKey <;> simp [Maps.zeroed]

/-! ## Key rotation -/

theorem Maps.proxySrc_of_publish {m : Maps} {flow : Flow} {pub : Tuple}
    (h : m.publish flow = some pub) : flow.proxySrc m.obfsKeys[0]! = some pub.src := by
  obtain ⟨key, a, o, hkey, -, ha, rfl⟩ := (m.publish_eq_some_iff flow pub).mp h
  rw [Maps.activeKey] at hkey
  split at hkey
  · cases hkey
  · cases hkey
    exact ha

/-- After a restart with a new key and the old one as the previous key, a reply
to an address that was given out under the old key reaches its client exactly
if the new key gives the flow the same address. -/
theorem reply_after_rotation_iff (host : Host) (tunnelIface wanIface : String)
    (old new : ProxySrcKey) (before loaded : Maps) (nat : NatMap) (flow : Flow)
    (a o : Ipv6Addr) (f : Framing) (p p' r : List Byte)
    (hnew : new ≠ ⟨Vector.replicate 16 0, Vector.replicate 16 0⟩)
    (hold : before.obfsKeys[0]! = old) (hp : Carries f flow.inner p)
    (hout : exec (tcIngress .production) ⟨p, before⟩ = (.ok .ok, ⟨p', before⟩))
    (hp' : Carries f ⟨a, o, flow.srcPort, flow.dstPort, flow.proto⟩ p')
    (hload : loadAndAttach .production host tunnelIface wanIface new (some old) = some loaded)
    (hif : loaded.xfrmIfindex[0]! ≠ 0) (hnat : nat.get flow.domainId = some ⟨o⟩)
    (hr : Carries .ethernet ⟨o, a, flow.dstPort, flow.srcPort, flow.proto⟩ r) :
    (∃ r', exec (tcIngressWan .production) ⟨r, { loaded with natMap := nat }⟩ =
        (.ok (.redirect loaded.xfrmIfindex[0]!), ⟨r', { loaded with natMap := nat }⟩) ∧
      Carries .ethernet ⟨syntheticIpv6 flow.domainId, clientVipFromId24 flow.clientId,
        flow.dstPort, flow.srcPort, flow.proto⟩ r') ↔
      flow.proxySrc new = flow.proxySrc old := by
  obtain ⟨-, -, hkey, -⟩ := loadAndAttach_eq_some hload
  have hpub : before.publish flow = some ⟨a, o, flow.srcPort, flow.dstPort, flow.proto⟩ :=
    (tcIngress_translates_iff (s := ⟨p, before⟩) hp).mp ⟨p', hout, hp'⟩
  have hsrc : flow.proxySrc old = some a := by
    rw [← hold]
    exact Maps.proxySrc_of_publish hpub
  rw [hsrc, ← Maps.publish_eq_some_iff_of_key (m := { loaded with natMap := nat }) hkey hnew hnat,
    ← Maps.mem_pairing_symm_iff]
  exact tcIngressWan_redirects_iff .production (s := ⟨r, { loaded with natMap := nat }⟩) hif hr

def demoHost : Host where
  sysfsIfindex := fun name ↦
    if name = "xfrm0" then .ok 5 else .error (.unreadable "No such file or directory (os error 2)")
  ifaddrs := .ok []

/-- The bitwise complement of `testKey`.  In the two words the codec makes of a
key the complements cancel. -/
def complementKey : ProxySrcKey :=
  ⟨testKey.princeKey.map (~~~ ·), testKey.siphashKey.map (~~~ ·)⟩

theorem reply_after_rotation_iff_demo :
    complementKey ≠ testKey ∧ demoMaps.obfsKeys[0]! = testKey ∧
    ∃ loaded r', loadAndAttach .production demoHost "xfrm0" "enp0s3" complementKey
        (some testKey) = some loaded ∧
      exec (tcIngressWan .production) ⟨demoReply, { loaded with natMap := demoMaps.natMap }⟩ =
        (.ok (.redirect loaded.xfrmIfindex[0]!),
          ⟨r', { loaded with natMap := demoMaps.natMap }⟩) := by
  have hp : Carries .rawIpv6 demoFlow.inner (packetOf .rawIpv6 demoFlow.inner []) :=
    carries_packetOf _ _ _
  have hpub : demoMaps.publish demoFlow = some ⟨demoAddr, demoOrigin, 50000, 443, .tcp⟩ :=
    publish_demoFlow (by decide)
  obtain ⟨p', hout, hp'⟩ := tcIngress_carries (s := ⟨_, demoMaps⟩) hpub hp
  have hload : loadAndAttach .production demoHost "xfrm0" "enp0s3" complementKey (some testKey) =
      some { Maps.zeroed with xfrmIfindex := #v[5], obfsKeys := #v[complementKey, testKey] } := rfl
  have hsame : demoFlow.proxySrc complementKey = demoFlow.proxySrc testKey := by decide +kernel
  obtain ⟨r', hback, -⟩ := (reply_after_rotation_iff demoHost "xfrm0" "enp0s3" testKey
    complementKey demoMaps _ demoMaps.natMap demoFlow demoAddr demoOrigin .rawIpv6 _ p' demoReply
    (by decide +kernel) (by decide) hp hout hp' hload (by decide) (by decide)
    (carries_packetOf _ _ [])).mpr hsame
  exact ⟨by decide +kernel, rfl, _, r', hload, hback⟩

def nextKey : ProxySrcKey :=
  ⟨testKey.siphashKey, testKey.princeKey⟩

/-- A flow translated under the old key; after the rotation its replies are
dropped although slot 1 holds the old key. -/
theorem rotation_drops_old_flow :
    nextKey.isZero = false ∧ testKey.isZero = false ∧ demoMaps.obfsKeys[0]! = testKey ∧
      (exec (tcIngress .production) ⟨packetOf .rawIpv6 demoFlow.inner [], demoMaps⟩).1 =
        .ok .ok ∧
      Carries .rawIpv6 ⟨demoAddr, demoOrigin, 50000, 443, .tcp⟩
        (exec (tcIngress .production) ⟨packetOf .rawIpv6 demoFlow.inner [], demoMaps⟩).2.data ∧
      Carries .ethernet ⟨demoOrigin, demoAddr, 443, 50000, .tcp⟩ demoReply ∧
      ∃ loaded, loadAndAttach .production demoHost "xfrm0" "enp0s3" nextKey (some testKey) =
          some loaded ∧
        loaded.obfsKeys = #v[nextKey, testKey] ∧ loaded.xfrmIfindex[0]! = 5 ∧
        (exec (tcIngressWan .production)
          ⟨demoReply, { loaded with natMap := demoMaps.natMap }⟩).1 = .ok .shot := by
  refine ⟨by decide, by decide, by decide, by decide +kernel, by decide +kernel,
    by decide +kernel, _, rfl, by decide, by decide, by decide +kernel⟩

end PrototypeNet
