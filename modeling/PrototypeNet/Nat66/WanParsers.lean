import PrototypeNet.Nat66.RoundTrip

/-!
# The two parsers of WAN traffic

`xdp_wan` takes every frame for an Ethernet one, while `tc_ingress_wan` guesses
the framing from the first nibble.  On an Ethernet frame that nibble belongs to
the destination MAC address, so the two parsers part ways exactly on the
addresses that start with a 6.
-/

namespace PrototypeNet

open ByteWords Buffer Fallible

theorem tcIngressWan_keeps (build : Build) {f : Framing} {t : Tuple} {s : Ctx}
    (h : Carries f t s.data) (hpre : HasPrefix proxySrcPrefix t.dst) :
    ∃ a s', exec (tcIngressWan build) s = (.ok a, s') ∧ (a = .shot ∨ ∃ i, a = .redirect i) := by
  cases hres : s.maps.resolve t.mirror with
  | none => exact ⟨.shot, s, tcIngressWan_drops build h hpre hres, .inl rfl⟩
  | some flow =>
      obtain ⟨d', hexec, -⟩ := tcIngressWan_resolves build h hres
      refine ⟨_, _, hexec, ?_⟩
      split
      · exact .inr ⟨_, rfl⟩
      · exact .inl rfl

/-- On return traffic that `xdp_wan` passes, `tc_ingress_wan` reads the same
header, and so drops or redirects the frame, exactly if the destination MAC
address does not start with a 6. -/
theorem wan_parsers_agree_iff (build : Build) (t : Tuple) (s : Ctx)
    (hty : IsEthernetIpv6 s.data) (hh : HeaderAt ethHdrLen t s.data)
    (hpre : HasPrefix proxySrcPrefix t.dst) :
    (exec (xdpWan build) s).1 = .ok .pass ∧
      ((exec ipv6Offset s = (.ok ethHdrLen, s) ∧
          ∃ a s', exec (tcIngressWan build) s = (.ok a, s') ∧
            (a = .shot ∨ ∃ i, a = .redirect i)) ↔
        firstNibble s.data ≠ some 6) := by
  obtain ⟨m, hpass, -⟩ := xdpWan_passes_return build hty hh hpre
  refine ⟨by rw [hpass], ?_, ?_⟩
  · rintro ⟨hoff, -⟩ hnib
    rw [exec_ipv6Offset (f := .rawIpv6) hnib] at hoff
    cases hoff
  · intro hnib
    have hc : Carries .ethernet t s.data := ⟨⟨hnib, hty⟩, hh⟩
    exact ⟨exec_ipv6Offset hc.1, tcIngressWan_keeps build hc hpre⟩

theorem wan_parsers_agree_iff_demo :
    (exec (xdpWan .production) ⟨demoReply, demoMaps⟩).1 = .ok .pass ∧
      ∃ a s', exec (tcIngressWan .production) ⟨demoReply, demoMaps⟩ = (.ok a, s') ∧
        (a = .shot ∨ ∃ i, a = .redirect i) := by
  have h := wan_parsers_agree_iff .production ⟨demoOrigin, demoAddr, 443, 50000, .tcp⟩
    ⟨demoReply, demoMaps⟩ (by decide +kernel) (by decide +kernel) (by decide +kernel)
  exact ⟨h.1, (h.2.mpr (by decide +kernel)).2⟩

/-- The same reply, sent to a unicast MAC address that starts with `62`. -/
def misreadReply : List Byte :=
  [0x62, 0x4f, 0x9a, 0x11, 0x22, 0x33] ++ demoReply.drop 6

/-- The frame is return traffic and passes `xdp_wan`; `tc_ingress_wan` takes
its MAC addresses for an IPv6 header and hands it to the host. -/
theorem wan_parsers_disagree :
    IsEthernetIpv6 misreadReply ∧
      HeaderAt ethHdrLen ⟨demoOrigin, demoAddr, 443, 50000, .tcp⟩ misreadReply ∧
      HasPrefix proxySrcPrefix demoAddr ∧
      (exec (xdpWan .production) ⟨misreadReply, demoMaps⟩).1 = .ok .pass ∧
      (exec ipv6Offset ⟨misreadReply, demoMaps⟩).1 = .ok 0 ∧
      (exec (tcIngressWan .production) ⟨misreadReply, demoMaps⟩).1 = .ok .ok ∧
      (exec (tcIngressWan .production) ⟨misreadReply, demoMaps⟩).2.data = misreadReply := by
  decide +kernel

end PrototypeNet
