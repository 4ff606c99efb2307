import PrototypeNet.Nat66.Checksum

/-!
# All or nothing

An error of a TC program turns into "pass the packet on", so an error between
two writes would send out half a translation.  This does not happen: whatever
the packet, a program of the production build either fails or decides before
its first write, or all its writes go through.  No run ends in the undefined
behaviour of a read outside the packet.
-/

namespace PrototypeNet

open ByteWords Buffer Fallible

/-- `d'` is `d` with new addresses and with the checksum that both updates
yield; all other bytes are the same. -/
structure Translated (f : Framing) (t : Tuple) (src dst : Ipv6Addr) (d d' : List Byte) : Prop where
  headers : Carries f t d
  rewritten : Rewritten f.offset (csumOf f t.proto) src dst d d'
  checksum : csumField d' (csumOf f t.proto) =
    csumReplace (csumReplace (csumField d (csumOf f t.proto)) (bpfCsumDiff t.src src 0) false)
      (bpfCsumDiff t.dst dst 0) false

/-- The addresses a packet leaves with, or comes back with, under the pairing of
flows and public tuples. -/
def OutboundAddrs (m : Maps) (t : Tuple) (src dst : Ipv6Addr) : Prop :=
  m.publish (Flow.ofInner t) = some ⟨src, dst, t.srcPort, t.dstPort, t.proto⟩

def ReturnAddrs (m : Maps) (t : Tuple) (src dst : Ipv6Addr) : Prop :=
  ∃ flow, m.resolve t.mirror = some flow ∧ src = syntheticIpv6 flow.domainId ∧
    dst = clientVipFromId24 flow.clientId

/-- How a run may end: with an error or a decision that leaves packet and maps
as they were, or with a complete translation to the addresses it is due. -/
def AllOrNothing (addrs : Tuple → Ipv6Addr → Ipv6Addr → Prop)
    (run : Except Abort TcAction × Ctx) (s : Ctx) : Prop :=
  run = (.error .err, s) ∨ run = (.ok .ok, s) ∨ run = (.ok .shot, s) ∨
    ∃ a f t src dst d', run = (.ok a, { s with data := d' }) ∧ addrs t src dst ∧
      Translated f t src dst s.data d'

theorem allOrNothing_of_unchanged {addrs : Tuple → Ipv6Addr → Ipv6Addr → Prop}
    {run : Except Abort TcAction × Ctx} {s : Ctx} {a : TcAction} (h : run = (.ok a, s))
    (ha : a = .ok ∨ a = .shot) : AllOrNothing addrs run s := by
  rcases ha with rfl | rfl
  · exact .inr (.inl h)
  · exact .inr (.inr (.inl h))

section Writes

variable {f : Framing} {t : Tuple} {s : Ctx}

/-- From a packet with complete headers the writes of `tc_ingress` all succeed. -/
theorem tcIngressRewrite_translates (h : Carries f t s.data) (o a : Ipv6Addr) :
    ∃ d', exec (tcIngressRewrite .production f.offset t.proto.toIpProto t.src t.dst o a
        t.srcPort t.dstPort) s = (.ok .ok, { s with data := d' }) ∧ Translated f t a o s.data d' :=
  ⟨_, exec_tcIngressRewrite .production h o a,
    h, rewritten_outboundBytes h a o, csumField_outboundBytes h a o⟩

theorem tcIngressWanRewrite_translates (h : Carries f t s.data) (synthetic client : Ipv6Addr) :
    ∃ act d', exec (tcIngressWanRewrite .production f.offset t.proto.toIpProto t.src t.dst
        synthetic client) s = (.ok act, { s with data := d' }) ∧
      Translated f t synthetic client s.data d' :=
  ⟨_, _, exec_tcIngressWanRewrite .production h synthetic client,
    h, rewritten_returnBytes h none synthetic client,
    csumField_returnBytes h none synthetic client⟩

end Writes

theorem tryTcIngress_allOrNothing (s : Ctx) :
    AllOrNothing (OutboundAddrs s.maps) (exec (tryTcIngress .production) s) s := by
  rcases exec_tryTcIngress_cases .production s with
    herr | ⟨a, ha, hact⟩ | ⟨f, t, pub, hc, hpre, hpub⟩
  · exact .inl herr
  · exact allOrNothing_of_unchanged ha hact
  · have haddrs : OutboundAddrs s.maps t pub.src pub.dst := by
      obtain ⟨key, a, o, -, -, -, rfl⟩ := (s.maps.publish_eq_some_iff _ pub).mp hpub
      exact hpub
    exact .inr (.inr (.inr ⟨_, f, t, _, _, _,
      exec_tryTcIngress_of_publish .production hc hpre hpub, haddrs, hc,
      rewritten_outboundBytes hc _ _, csumField_outboundBytes hc _ _⟩))

theorem tryTcIngressWan_allOrNothing (s : Ctx) :
    AllOrNothing (ReturnAddrs s.maps) (exec (tryTcIngressWan .production) s) s := by
  rcases exec_tryTcIngressWan_cases .production s with herr | hok | ⟨f, t, hc, hpre⟩
  · exact .inl herr
  · exact .inr (.inl hok)
  · cases hres : s.maps.resolve t.mirror with
    | none =>
        refine .inr (.inr (.inl ?_))
        rw [exec_tryTcIngressWan .production hc hpre, hres]
    | some flow =>
        exact .inr (.inr (.inr ⟨_, f, t, _, _, _,
          exec_tryTcIngressWan_of_resolve .production hc hres, ⟨flow, hres, rfl, rfl⟩, hc,
          rewritten_returnBytes hc none _ _, csumField_returnBytes hc none _ _⟩))

/-- The entry point of a program turns the error into a pass, and has no error
of its own. -/
theorem allOrNothing_entry {addrs : Tuple → Ipv6Addr → Ipv6Addr → Prop} {prog : BpfM TcAction}
    {s : Ctx} (h : AllOrNothing addrs (exec prog s) s) :
    (exec prog s = (.error .err, s) ∧
      exec (tryCatch prog fun e ↦ if e = .err then pure .ok else throw e) s = (.ok .ok, s)) ∨
    exec (tryCatch prog fun e ↦ if e = .err then pure .ok else throw e) s = exec prog s := by
  rcases h with herr | hok | hshot | ⟨a, f, t, src, dst, d', hrun, -⟩
  · exact .inl ⟨herr, exec_tryCatch_of_error herr⟩
  · exact .inr ((exec_tryCatch_of_ok hok).trans hok.symm)
  · exact .inr ((exec_tryCatch_of_ok hshot).trans hshot.symm)
  · exact .inr ((exec_tryCatch_of_ok hrun).trans hrun.symm)

/-- Both programs, as far as the fallible function goes and as a whole: only
the complete translation changes anything, and once the headers are found to be
complete no write fails. -/
theorem tc_programs_all_or_nothing (s : Ctx) :
    (AllOrNothing (OutboundAddrs s.maps) (exec (tryTcIngress .production) s) s ∧
      (exec (tryTcIngress .production) s = (.error .err, s) ∧
          exec (tcIngress .production) s = (.ok .ok, s) ∨
        exec (tcIngress .production) s = exec (tryTcIngress .production) s) ∧
      ∀ f t, Carries f t s.data → ∀ o a, ∃ d',
        exec (tcIngressRewrite .production f.offset t.proto.toIpProto t.src t.dst o a
          t.srcPort t.dstPort) s = (.ok .ok, { s with data := d' }) ∧
        Translated f t a o s.data d') ∧
    (AllOrNothing (ReturnAddrs s.maps) (exec (tryTcIngressWan .production) s) s ∧
      (exec (tryTcIngressWan .production) s = (.error .err, s) ∧
          exec (tcIngressWan .production) s = (.ok .ok, s) ∨
        exec (tcIngressWan .production) s = exec (tryTcIngressWan .production) s) ∧
      ∀ f t, Carries f t s.data → ∀ synthetic client, ∃ act d',
        exec (tcIngressWanRewrite .production f.offset t.proto.toIpProto t.src t.dst
          synthetic client) s = (.ok act, { s with data := d' }) ∧
        Translated f t synthetic client s.data d') :=
  ⟨⟨tryTcIngress_allOrNothing s, allOrNothing_entry (tryTcIngress_allOrNothing s),
      fun _ _ h o a ↦ tcIngressRewrite_translates h o a⟩,
    tryTcIngressWan_allOrNothing s, allOrNothing_entry (tryTcIngressWan_allOrNothing s),
      fun _ _ h synthetic client ↦ tcIngressWanRewrite_translates h synthetic client⟩

end PrototypeNet
