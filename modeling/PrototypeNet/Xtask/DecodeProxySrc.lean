import PrototypeNet.Lib.Ipv6Text
import PrototypeNet.Daemon.KeyHex
import PrototypeNet.Daemon.Loader

/-!
# Decoding an address by hand

`cargo xtask decode-proxy-src` is for someone who reads an address in a log of
the origin and wants to know whose it is.  It takes the key, the address and
the ports as text, with code of its own for the key.  What it prints is the
flow the packet programs published under the address, and it prints nothing
else for an address with the proxy prefix.
-/

namespace PrototypeNet

open ByteWords Text Numerals Ipv6Text

namespace Xtask

/-! ## The command -/

def parseIpv6 (s : List Char) : Except (List String) Ipv6Addr :=
  match fromStr s with
  | some gs => .ok (octets gs)
  | none => .error ["failed to parse IPv6: " ++ String.ofList s, "invalid IPv6 address syntax"]

def formatIpv6 (bytes : Ipv6Addr) : String :=
  String.ofList (display (segments bytes))

/-- The first part of the command.  Unlike the daemon it takes a zero key. -/
def parseKey (keyHex : String) : Except Stop ProxySrcKey :=
  let keyHex := trim keyHex.toList
  if byteLen keyHex ≠ 64 then
    .error (.error ["key must be exactly 64 hex characters (32 bytes), got " ++
      toString (byteLen keyHex)])
  else do
    let keyBytes ← (List.range 32).mapM (readByte keyHex)
    return keyOfBytes keyBytes

def parseAddr (addrStr : String) : Except Stop Ipv6Addr :=
  (parseIpv6 (trim addrStr.toList)).mapError fun chain ↦
    .error (("invalid IPv6 address: " ++ addrStr) :: chain)

def parseProto (proto : String) : Except Stop Byte :=
  if proto.toList.map Char.toLower = ['t', 'c', 'p'] then .ok 6
  else if proto.toList.map Char.toLower = ['u', 'd', 'p'] then .ok 17
  else .error (.error ["proto must be 'tcp' or 'udp', got '" ++ proto ++ "'"])

/-- What a run that gets as far as decoding prints: the lines on its output, or
one on the error output and exit status 1. -/
inductive Printed
  | decoded (lines : List String)
  | failed (line : String)
  deriving DecidableEq, Repr

def report (clientId domainId : BitVec 32) : List String :=
  ["client_id=" ++ toString clientId.toNat ++ ", domain_id=" ++ toString domainId.toNat,
    "client_vip=" ++ formatIpv6 (clientVipFromId24 clientId),
    "synthetic_addr=" ++ formatIpv6 (syntheticIpv6 domainId)]

def printed : Option (BitVec 32 × BitVec 32) → Printed
  | some (clientId, domainId) => .decoded (report clientId domainId)
  | none => .failed "DECODE FAILED: tag mismatch, padding error, or wrong key/context"

def decodeProxySrc (keyHex addrStr : String) (srcPort dstPort : BitVec 16) (proto : String) :
    Except Stop Printed := do
  let key ← parseKey keyHex
  let addrBytes ← parseAddr addrStr
  let protoNum ← parseProto proto
  return printed (PrototypeNet.decodeProxySrc addrBytes ⟨srcPort, dstPort, protoNum⟩ key)

/-! ## Its arguments -/

theorem parseKey_of_parseProxyKeyHex {hex : String} {key : ProxySrcKey}
    (h : parseProxyKeyHex hex = .ok key) : parseKey hex = .ok key := by
  unfold parseProxyKeyHex at h
  unfold parseKey
  simp only at h ⊢
  split_ifs at h ⊢ with hlen
  cases hbytes : (List.range 32).mapM (readByte (trim hex.toList)) with
  | error e =>
      rw [hbytes] at h
      cases h
  | ok bytes =>
      rw [hbytes] at h
      simp only [bind, Except.bind] at h ⊢
      split_ifs at h
      exact h

theorem not_isWhitespace {c : Char} (h : isAddrChar c) : isWhitespace c = false := by
  have hrange : 46 ≤ c.toNat ∧ c.toNat ≤ 122 := by
    rcases h with hdigit | rfl | rfl
    · have := toNat_of_isDigitOf hdigit
      omega
    · decide
    · decide
  simp only [isWhitespace, decide_eq_false_iff_not]
  omega

/-- The command reads every address it prints. -/
theorem parseAddr_formatIpv6 (a : Ipv6Addr) : parseAddr (formatIpv6 a) = .ok a := by
  have htrim : trim (display (segments a)) = display (segments a) :=
    trim_eq_self fun c hc ↦ not_isWhitespace (isAddrChar_of_mem_display hc)
  rw [parseAddr, formatIpv6, String.toList_ofList, htrim, parseIpv6,
    fromStr_display (length_segments a)]
  simp only [octets_segments]
  rfl

theorem parseProto_eq_ok {proto : String} {n : Byte} (h : parseProto proto = .ok n) :
    ∃ p : L4Proto, p.number = n := by
  unfold parseProto at h
  split_ifs at h
  · cases h
    exact ⟨.tcp, rfl⟩
  · cases h
    exact ⟨.udp, rfl⟩

theorem printed_eq_decoded {r : Option (BitVec 32 × BitVec 32)} {lines : List String}
    (h : printed r = .decoded lines) : ∃ c d, r = some (c, d) ∧ lines = report c d := by
  obtain _ | ⟨c, d⟩ := r
  · cases h
  · cases h
    exact ⟨c, d, rfl, rfl⟩

theorem decodeProxySrc_of_args {keyHex addrStr proto : String} {key : ProxySrcKey} {a : Ipv6Addr}
    {n : Byte} (hkey : parseKey keyHex = .ok key) (haddr : parseAddr addrStr = .ok a)
    (hproto : parseProto proto = .ok n) (srcPort dstPort : BitVec 16) :
    decodeProxySrc keyHex addrStr srcPort dstPort proto =
      .ok (printed (PrototypeNet.decodeProxySrc a ⟨srcPort, dstPort, n⟩ key)) := by
  rw [decodeProxySrc, hkey, haddr, hproto]
  rfl

/-- A run that prints something has read all its arguments. -/
theorem decodeProxySrc_eq_ok {keyHex addrStr proto : String} {srcPort dstPort : BitVec 16}
    {p : Printed} (h : decodeProxySrc keyHex addrStr srcPort dstPort proto = .ok p) :
    ∃ key a n, parseKey keyHex = .ok key ∧ parseAddr addrStr = .ok a ∧ parseProto proto = .ok n ∧
      p = printed (PrototypeNet.decodeProxySrc a ⟨srcPort, dstPort, n⟩ key) := by
  unfold decodeProxySrc at h
  cases hkey : parseKey keyHex with
  | error e =>
      rw [hkey] at h
      cases h
  | ok key =>
      cases haddr : parseAddr addrStr with
      | error e =>
          rw [hkey, haddr] at h
          cases h
      | ok a =>
          cases hproto : parseProto proto with
          | error e =>
              rw [hkey, haddr, hproto] at h
              cases h
          | ok n =>
              rw [hkey, haddr, hproto] at h
              cases h
              exact ⟨key, a, n, rfl, rfl, rfl, rfl⟩

end Xtask

/-! ## The command and the packet programs -/

/-- Under the key text the daemon was started with, the command tells the flow
of every address the packet programs publish, and for an address with the
proxy prefix it tells no flow but the one with this address. -/
theorem decode_command_tells_flow (keyHex : String) (key : ProxySrcKey)
    (hkey : parseProxyKeyHex keyHex = .ok key) (m : Maps) (hm : m.obfsKeys[0]! = key) :
    (∀ flow pub, m.publish flow = some pub → ∀ addrStr proto,
      Xtask.parseAddr addrStr = .ok pub.src → Xtask.parseProto proto = .ok flow.proto.number →
      Xtask.decodeProxySrc keyHex addrStr flow.srcPort flow.dstPort proto =
        .ok (.decoded (Xtask.report flow.clientId flow.domainId))) ∧
    (∀ addrStr srcPort dstPort proto lines,
      Xtask.decodeProxySrc keyHex addrStr srcPort dstPort proto = .ok (.decoded lines) →
      ∃ a, Xtask.parseAddr addrStr = .ok a ∧
        (HasPrefix proxySrcPrefix a → ∃ flow : Flow, flow.proxySrc key = some a ∧
          flow.srcPort = srcPort ∧ flow.dstPort = dstPort ∧
          Xtask.parseProto proto = .ok flow.proto.number ∧
          lines = Xtask.report flow.clientId flow.domainId)) ∧
    ∀ a, Xtask.parseAddr (Xtask.formatIpv6 a) = .ok a := by
  have hkey' := Xtask.parseKey_of_parseProxyKeyHex hkey
  refine ⟨?_, ?_, Xtask.parseAddr_formatIpv6⟩
  · intro flow pub hpub addrStr proto haddr hproto
    have hsrc := Maps.proxySrc_of_publish hpub
    rw [hm] at hsrc
    rw [Xtask.decodeProxySrc_of_args hkey' haddr hproto]
    have hdec : decodeProxySrc pub.src flow.ctx key = some (flow.clientId, flow.domainId) :=
      decode_of_encode hsrc
    exact congrArg (fun r ↦ Except.ok (Xtask.printed r)) hdec
  · intro addrStr srcPort dstPort proto lines hrun
    obtain ⟨key', a, n, hk, haddr, hproto, hprinted⟩ := Xtask.decodeProxySrc_eq_ok hrun
    obtain rfl : key = key' := Except.ok.inj (hkey'.symm.trans hk)
    obtain ⟨c, d, hdec, rfl⟩ := Xtask.printed_eq_decoded hprinted.symm
    obtain ⟨p, rfl⟩ := Xtask.parseProto_eq_ok hproto
    refine ⟨a, haddr, fun hpre ↦ ⟨⟨c, d, srcPort, dstPort, p⟩, ?_, rfl, rfl, hproto, rfl⟩⟩
    exact (decode_iff_encode a hpre _ key c d).mp hdec

def testKeyHex : String :=
  "0123456789abcdeffedcba9876543210000102030405060708090a0b0c0d0e0f"

theorem decode_command_tells_flow_demo :
    Xtask.decodeProxySrc testKeyHex (Xtask.formatIpv6 demoAddr) 50000 443 "TCP" =
      .ok (.decoded (Xtask.report 100 7)) := by
  have hkey : parseProxyKeyHex testKeyHex = .ok testKey := by
    decide +kernel
  have hpub : demoMaps.publish demoFlow = some ⟨demoAddr, demoOrigin, 50000, 443, .tcp⟩ :=
    publish_demoFlow (by decide)
  obtain ⟨htells, -, hformat⟩ := decode_command_tells_flow testKeyHex testKey hkey demoMaps rfl
  exact htells demoFlow _ hpub _ "TCP" (hformat demoAddr) (by decide)

end PrototypeNet
