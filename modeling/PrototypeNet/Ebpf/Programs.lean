import PrototypeNet.Ebpf.Kernel

/-!
# The packet programs

`xdp_wan` filters what arrives on the WAN interface, `tc_ingress` translates
client packets on their way out and `tc_ingress_wan` translates the replies.
Each definition follows its source function statement by statement; logging
is left out.
-/

namespace PrototypeNet

open ByteWords Buffer Fallible

/-! ## Headers -/

inductive IpProto
  | tcp
  | udp
  | ipv6Icmp
  | other (number : Byte)
  deriving DecidableEq, Repr

def IpProto.ofByte (b : Byte) : IpProto :=
  if b = 6 then .tcp else if b = 17 then .udp else if b = 58 then .ipv6Icmp else .other b

def ethHdrLen : ℕ := 14

def ipv6HdrLen : ℕ := 40

def tcpHdrLen : ℕ := 20

def udpHdrLen : ℕ := 8

def etherTypeIpv6 : Vector Byte 2 := #v[0x86, 0xdd]

def etherType (ethhdr : ℕ) : BpfM (Vector Byte 2) :=
  deref 2 (ethhdr + 12)

def nextHdr (ipv6hdr : ℕ) : BpfM IpProto := do
  let b ← deref 1 (ipv6hdr + 6)
  pure (IpProto.ofByte b[0]!)

def srcAddr (ipv6hdr : ℕ) : BpfM Ipv6Addr :=
  deref 16 (ipv6hdr + 8)

def dstAddr (ipv6hdr : ℕ) : BpfM Ipv6Addr :=
  deref 16 (ipv6hdr + 24)

def portFields (l4hdr : ℕ) : BpfM (BitVec 16 × BitVec 16) := do
  let src ← deref 2 l4hdr
  let dst ← deref 2 (l4hdr + 2)
  pure (fromBeBytes 16 src, fromBeBytes 16 dst)

/-- `u16::to_be` on the little-endian target. -/
def toBe16 (x : BitVec 16) : BitVec 16 :=
  x.rotateLeft 8

/-- Where the IPv6 header starts: at once if the first nibble says version 6,
else behind an Ethernet header of type IPv6. -/
def ipv6Offset : BpfM ℕ := do
  let firstByte ← load 0
  if firstByte >>> 4 = 6 then pure 0
  else do
    let ethhdr ← ptrAt ethHdrLen 0
    let ty ← etherType ethhdr
    if ty ≠ etherTypeIpv6 then throw .err
    else pure ethHdrLen

def extractL4Ports (l4Base : ℕ) (proto : IpProto) : BpfM (BitVec 16 × BitVec 16) :=
  match proto with
  | .tcp => do
      let tcp ← ptrAt tcpHdrLen l4Base
      portFields tcp
  | .udp => do
      let udp ← ptrAt udpHdrLen l4Base
      portFields udp
  | _ => throw .ub

def extractL4PortsXdp (l4Base : ℕ) (proto : IpProto) : BpfM (BitVec 16 × BitVec 16) :=
  match proto with
  | .tcp => do
      let tcp ← ptrAtXdp tcpHdrLen l4Base
      portFields tcp
  | .udp => do
      let udp ← ptrAtXdp udpHdrLen l4Base
      portFields udp
  | _ => throw .err

def updateAddrCsum (csumOffset : ℕ) (oldAddr newAddr : Ipv6Addr) : BpfM Unit :=
  l4CsumReplace csumOffset (bpfCsumDiff oldAddr newAddr 0) false

def protoNum : IpProto → Byte
  | .tcp => 6
  | _ => 17

def l4CsumOffset (l4Base : ℕ) : IpProto → ℕ
  | .tcp => l4Base + 16
  | _ => l4Base + 6

/-! ## The XDP filter -/

inductive XdpAction
  | drop
  | pass
  deriving DecidableEq, Repr

/-- The dev-mode block of `try_xdp_wan`: `none` falls through to the drop. -/
def xdpDevReply (ipv6hdr : ℕ) (dstIpv6 : Ipv6Addr) : BpfM (Option XdpAction) := do
  let s ← get
  match s.maps.devWanIpv6[0]? with
  | some wan =>
      if wan ≠ Vector.replicate 16 0 ∧ dstIpv6 = wan then do
        dbgInc 2
        let nexthdr ← nextHdr ipv6hdr
        if nexthdr ≠ .tcp ∧ nexthdr ≠ .udp then pure (some .pass)
        else do
          let ports ← tryCatch (some <$> extractL4PortsXdp (ethHdrLen + ipv6HdrLen) nexthdr)
            fun e ↦ if e = .err then pure none else throw e
          match ports with
          | none => pure (some .pass)
          | some (srcPort, dstPort) => do
              let srcIpv6 ← srcAddr ipv6hdr
              let trackKey : ReplyTrackKey :=
                ⟨srcIpv6, toBe16 srcPort, toBe16 dstPort, protoNum nexthdr⟩
              match s.maps.replyTrack.get trackKey with
              | some trackVal => do
                  dbgInc 3
                  modify fun t ↦
                    { t with data := patch t.data (ipv6hdr + 24) trackVal.proxySrc.toList }
                  pure (some .pass)
              | none => do
                  dbgInc 4
                  pure (some .pass)
      else do
        dbgInc 6
        pure none
  | none => do
      dbgInc 7
      pure none

def tryXdpWan (build : Build) : BpfM XdpAction := do
  let ethhdr ← ptrAtXdp ethHdrLen 0
  let ty ← etherType ethhdr
  if ty ≠ etherTypeIpv6 then pure .pass
  else do
    let ipv6hdr ← ptrAtXdp ipv6HdrLen ethHdrLen
    let nexthdr ← nextHdr ipv6hdr
    if nexthdr = .ipv6Icmp then pure .pass
    else do
      let dstIpv6 ← dstAddr ipv6hdr
      if build = .devMode then dbgInc 0
      if HasPrefix proxySrcPrefix dstIpv6 then do
        if build = .devMode then dbgInc 1
        pure .pass
      else if build = .devMode then do
        match (← xdpDevReply ipv6hdr dstIpv6) with
        | some action => pure action
        | none => do
            dbgInc 5
            pure .drop
      else pure .drop

def xdpWan (build : Build) : BpfM XdpAction :=
  tryCatch (tryXdpWan build) fun e ↦ if e = .err then pure .pass else throw e

/-! ## The TC programs -/

/-- What a TC program tells the kernel to do.  `bpf_redirect` names the target
interface and returns the redirect code. -/
inductive TcAction
  | ok
  | shot
  | redirect (ifindex : BitVec 32)
  deriving DecidableEq, Repr

/-- The source address `tc_ingress` writes: the proxy-source address, or in a
dev-mode build the WAN address, after recording how to undo that. -/
def finalSrc (build : Build) (proxySrc originIpv6 : Ipv6Addr) (srcPort dstPort : BitVec 16)
    (proto : Byte) : BpfM Ipv6Addr :=
  match build with
  | .production => pure proxySrc
  | .devMode => do
      let s ← get
      match s.maps.devWanIpv6[0]? with
      | some wan =>
          if wan ≠ Vector.replicate 16 0 then do
            replyTrackInsert ⟨originIpv6, toBe16 dstPort, toBe16 srcPort, proto⟩ ⟨proxySrc⟩
            pure wan
          else pure proxySrc
      | none => pure proxySrc

def tcIngressRewrite (build : Build) (ipOff : ℕ) (nexthdr : IpProto)
    (origSrc dstIpv6 originIpv6 proxySrc : Ipv6Addr) (srcPort dstPort : BitVec 16) :
    BpfM TcAction := do
  let l4Base := ipOff + ipv6HdrLen
  let csumOffset := l4CsumOffset l4Base nexthdr
  storeAll (ipOff + 24) originIpv6.toList
  let src ← finalSrc build proxySrc originIpv6 srcPort dstPort (protoNum nexthdr)
  storeAll (ipOff + 8) src.toList
  updateAddrCsum csumOffset origSrc src
  updateAddrCsum csumOffset dstIpv6 originIpv6
  pure .ok

/-- `try_tc_ingress` from the extraction of the domain id on. -/
def tcIngressTranslate (build : Build) (ipOff : ℕ) (nexthdr : IpProto) (dstIpv6 : Ipv6Addr) :
    BpfM TcAction := do
  let domainId := beWord32 dstIpv6[4]! dstIpv6[5]! dstIpv6[6]! dstIpv6[7]!
  let s ← get
  match s.maps.natMap.get domainId with
  | none => pure .shot
  | some natEntry => do
      let origSrc ← srcAddr ipOff
      let clientId := beWord32 origSrc[12]! origSrc[13]! origSrc[14]! origSrc[15]!
      let l4Base := ipOff + ipv6HdrLen
      let (srcPort, dstPort) ← extractL4Ports l4Base nexthdr
      match s.maps.obfsKeys[0]? with
      | none => pure .shot
      | some key =>
          if key.isZero then pure .shot
          else
            let flowCtx : ProxySrcCtx := ⟨srcPort, dstPort, protoNum nexthdr⟩
            match encodeProxySrc clientId domainId flowCtx key with
            | none => pure .shot
            | some proxySrc =>
                tcIngressRewrite build ipOff nexthdr origSrc dstIpv6 natEntry.originIpv6
                  proxySrc srcPort dstPort

def tryTcIngress (build : Build) : BpfM TcAction := do
  let ipOff ← ipv6Offset
  let ipv6hdr ← ptrAt ipv6HdrLen ipOff
  let nexthdr ← nextHdr ipv6hdr
  if nexthdr ≠ .tcp ∧ nexthdr ≠ .udp then pure .ok
  else do
    let dstIpv6 ← dstAddr ipv6hdr
    if ¬ HasPrefix syntheticPrefix dstIpv6 then pure .ok
    else tcIngressTranslate build ipv6hdr nexthdr dstIpv6

/-- The entry point: an error passes the packet through. -/
def tcIngress (build : Build) : BpfM TcAction :=
  tryCatch (tryTcIngress build) fun e ↦ if e = .err then pure .ok else throw e

/-- Decode with the active key; slot 1 of `OBFS_KEYS` is never consulted. -/
def tryDecodeWithActiveKey (addr : Ipv6Addr) (flowCtx : ProxySrcCtx) :
    BpfM (Option (BitVec 32 × BitVec 32)) := do
  let s ← get
  match s.maps.obfsKeys[0]? with
  | some key0 =>
      if key0.isZero then pure none
      else pure (decodeProxySrc addr flowCtx key0)
  | none => pure none

/-- The checksum delta for the rewrite `xdp_wan` made without one. -/
def devWanCsum (build : Build) (csumOffset : ℕ) (dstIpv6 : Ipv6Addr) : BpfM Unit :=
  match build with
  | .production => pure ()
  | .devMode => do
      let s ← get
      match s.maps.devWanIpv6[0]? with
      | some wan =>
          if wan ≠ Vector.replicate 16 0 then updateAddrCsum csumOffset wan dstIpv6
          else pure ()
      | none => pure ()

def tcIngressWanRewrite (build : Build) (ipOff : ℕ) (nexthdr : IpProto)
    (srcIpv6 dstIpv6 synthetic clientIpv6 : Ipv6Addr) : BpfM TcAction := do
  let l4Base := ipOff + ipv6HdrLen
  let csumOffset := l4CsumOffset l4Base nexthdr
  storeAll (ipOff + 8) synthetic.toList
  storeAll (ipOff + 24) clientIpv6.toList
  updateAddrCsum csumOffset srcIpv6 synthetic
  updateAddrCsum csumOffset dstIpv6 clientIpv6
  devWanCsum build csumOffset dstIpv6
  l4CsumReplace csumOffset 0 true
  let s ← get
  match s.maps.xfrmIfindex[0]? with
  | some idx => if idx ≠ 0 then pure (.redirect idx) else pure .shot
  | none => pure .shot

/-- `try_tc_ingress_wan` from the extraction of the ports on. -/
def tcIngressWanTranslate (build : Build) (ipOff : ℕ) (nexthdr : IpProto)
    (dstIpv6 : Ipv6Addr) : BpfM TcAction := do
  let l4Base := ipOff + ipv6HdrLen
  let (replySrcPort, replyDstPort) ← extractL4Ports l4Base nexthdr
  -- The codec sees the flow from the client's side, so the ports swap roles.
  let flowCtx : ProxySrcCtx := ⟨replyDstPort, replySrcPort, protoNum nexthdr⟩
  let decoded ← tryDecodeWithActiveKey dstIpv6 flowCtx
  match decoded with
  | none => pure .shot
  | some (clientId, domainId) => do
      let clientIpv6 := clientVipFromId24 clientId
      let srcIpv6 ← srcAddr ipOff
      let s ← get
      match s.maps.natMap.get domainId with
      | none => pure .shot
      | some natEntry =>
          if srcIpv6 ≠ natEntry.originIpv6 then pure .shot
          else
            tcIngressWanRewrite build ipOff nexthdr srcIpv6 dstIpv6
              (syntheticIpv6 domainId) clientIpv6

def tryTcIngressWan (build : Build) : BpfM TcAction := do
  let ipOff ← ipv6Offset
  let ipv6hdr ← ptrAt ipv6HdrLen ipOff
  let nexthdr ← nextHdr ipv6hdr
  if nexthdr ≠ .tcp ∧ nexthdr ≠ .udp then pure .ok
  else do
    let dstIpv6 ← dstAddr ipv6hdr
    if ¬ HasPrefix proxySrcPrefix dstIpv6 then pure .ok
    else tcIngressWanTranslate build ipv6hdr nexthdr dstIpv6

def tcIngressWan (build : Build) : BpfM TcAction :=
  tryCatch (tryTcIngressWan build) fun e ↦ if e = .err then pure .ok else throw e

end PrototypeNet
