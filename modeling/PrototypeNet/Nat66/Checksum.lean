import PrototypeNet.Lib.OnesComplement
import PrototypeNet.Nat66.RoundTrip

/-!
# The L4 checksum under translation

A receiver adds up the words of the pseudo-header and of the L4 segment with
end-around carry and accepts the packet if the sum is all ones.  The programs
never compute such a sum: they correct the checksum field by the difference of
the addresses.  Seen as residues modulo `65535` both are the same, so a packet
that verifies before the translation verifies after it; and the field becomes
zero exactly if it was congruent to that difference.
-/

namespace PrototypeNet

open ByteWords Buffer Fallible OnesComplement

/-! ## What a receiver checks -/

/-- The bytes a TCP or UDP checksum covers: both addresses, the length of the
segment and the protocol, then the segment itself. -/
def coveredBytes (src dst : Ipv6Addr) (p : L4Proto) (segment : List Byte) : List Byte :=
  src.toList ++ (dst.toList ++ ((toBeBytes 4 (BitVec.ofNat 32 segment.length)).toList ++
    ([0, 0, 0, p.number] ++ segment)))

/-- The L4 segment is the `len` bytes behind the IPv6 header, however that
length is known; it holds at least the L4 header. -/
def Verifies (f : Framing) (t : Tuple) (len : ℕ) (d : List Byte) : Prop :=
  t.proto.hdrLen ≤ len ∧ f.offset + ipv6HdrLen + len ≤ d.length ∧
    onesSum (words16 (coveredBytes t.src t.dst t.proto
      (window d (f.offset + ipv6HdrLen) len))) = 0xffff

instance (f : Framing) (t : Tuple) (len : ℕ) (d : List Byte) : Decidable (Verifies f t len d) :=
  inferInstanceAs (Decidable (_ ∧ _ ∧ _))

def addrSum (a : Ipv6Addr) : Residue :=
  byteSum a.toList

theorem byteSum_coveredBytes (src dst : Ipv6Addr) (p : L4Proto) (segment : List Byte) :
    byteSum (coveredBytes src dst p segment) =
      addrSum src + addrSum dst + byteSum (toBeBytes 4 (BitVec.ofNat 32 segment.length)).toList +
        byteSum [0, 0, 0, p.number] + byteSum segment := by
  rw [coveredBytes, byteSum_append_of_even (by rw [Vector.length_toList]),
    byteSum_append_of_even (by rw [Vector.length_toList]),
    byteSum_append_of_even (by rw [Vector.length_toList]), byteSum_append_of_even (by simp),
    addrSum, addrSum]
  ring

theorem sum_coveredBytes_iff (src dst : Ipv6Addr) (p : L4Proto) (segment : List Byte) :
    onesSum (words16 (coveredBytes src dst p segment)) = 0xffff ↔
      byteSum (coveredBytes src dst p segment) = 0 := by
  have hmem : p.number ∈ coveredBytes src dst p segment := by simp [coveredBytes]
  refine onesSum_words16_eq_iff hmem ?_
  cases p <;> decide

/-! ## What the kernel computes -/

theorem csumAdd_eq_carryAdd : csumAdd = carryAdd := rfl

theorem two_pow_16 : (2 : Residue) ^ 16 = 1 := two_pow_eq_one (by norm_num)

theorem two_pow_32 : (2 : Residue) ^ 32 = 1 := by
  rw [show 32 = 16 * 2 from rfl, pow_mul, two_pow_16, one_pow]

theorem toNat_leWord16 (b₀ b₁ : Byte) : (leWord16 b₀ b₁).toNat = wordValue [b₁, b₀] := by
  have hlt : wordValue [b₁, b₀] < 2 ^ 16 := (wordValue_lt [b₁, b₀]).trans_eq (by norm_num)
  rw [leWord16, fromBeBytes, BitVec.toNat_ofNat]
  exact Nat.mod_eq_of_lt hlt

theorem toNat_leWord32 (b₀ b₁ b₂ b₃ : Byte) :
    (leWord32 b₀ b₁ b₂ b₃).toNat = wordValue [b₃, b₂, b₁, b₀] := by
  have hlt : wordValue [b₃, b₂, b₁, b₀] < 2 ^ 32 :=
    (wordValue_lt [b₃, b₂, b₁, b₀]).trans_eq (by norm_num)
  rw [leWord32, beWord32, fromBeBytes, BitVec.toNat_ofNat]
  exact Nat.mod_eq_of_lt hlt

theorem toList_addr (a : Ipv6Addr) :
    a.toList = [a[0]!, a[1]!, a[2]!, a[3]!] ++ ([a[4]!, a[5]!, a[6]!, a[7]!] ++
      ([a[8]!, a[9]!, a[10]!, a[11]!] ++ [a[12]!, a[13]!, a[14]!, a[15]!])) := by
  apply List.ext_getElem
  · simp
  · intro i hi _
    rw [Vector.length_toList] at hi
    interval_cases i <;> simp

/-- The kernel adds up the words of an address in the other byte order. -/
theorem addrSum_eq_csumWords (a : Ipv6Addr) :
    addrSum a = 256 * ((csumWords a).map fun x ↦ (x.toNat : Residue)).sum := by
  rw [addrSum, toList_addr, byteSum_append_of_even (by simp), byteSum_append_of_even (by simp),
    byteSum_append_of_even (by simp)]
  simp only [byteSum_eq_reverse, csumWords, List.map_cons, List.map_nil, List.sum_cons,
    List.sum_nil, toNat_leWord32]
  simp only [List.reverse_cons, List.reverse_nil, List.nil_append, List.cons_append]
  ring

theorem cast_bpfCsumDiff (old new : Ipv6Addr) :
    256 * ((bpfCsumDiff old new 0).toNat : Residue) = addrSum new - addrSum old := by
  have hneg : ∀ ws : List (BitVec 32),
      (((ws.map fun x ↦ ~~~ x).map fun x ↦ (x.toNat : Residue)).sum : Residue) =
        -(ws.map fun x ↦ (x.toNat : Residue)).sum := by
    intro ws
    induction ws with
    | nil => simp
    | cons x ws ih =>
        simp only [List.map_cons, List.sum_cons] at ih ⊢
        rw [ih, cast_not two_pow_32]
        ring
  rw [bpfCsumDiff, csumAdd_eq_carryAdd, cast_foldl_carryAdd two_pow_32, List.map_append,
    List.sum_append, hneg, addrSum_eq_csumWords, addrSum_eq_csumWords]
  simp only [BitVec.ofNat_eq_ofNat, BitVec.toNat_ofNat, Nat.zero_mod, Nat.cast_zero]
  ring

/-- Folding twice leaves a 16-bit number with the same residue, zero only if
the sum was. -/
theorem toNat_csumFold (x : BitVec 32) :
    ∃ b : ℕ, (csumFold x).toNat = 65535 - b ∧ b ≤ 65535 ∧ (b : Residue) = x.toNat ∧
      (b = 0 ↔ x = 0) := by
  have hx := x.isLt
  let a := x.toNat % 2 ^ 16 + x.toNat / 2 ^ 16
  have ha : ((x &&& 0xffff) + (x >>> 16)).toNat = a := by
    rw [BitVec.toNat_add, toNat_and_ones x _ 16 rfl, BitVec.toNat_ushiftRight,
      Nat.shiftRight_eq_div_pow, Nat.mod_eq_of_lt (by omega)]
  let b := a % 2 ^ 16 + a / 2 ^ 16
  have hb : b ≤ 65535 := by omega
  have hfold : (csumFold x).toNat = 65535 - b := by
    simp only [csumFold]
    rw [BitVec.toNat_not, BitVec.toNat_setWidth, BitVec.toNat_add, toNat_and_ones _ _ 16 rfl,
      BitVec.toNat_ushiftRight, Nat.shiftRight_eq_div_pow, ha]
    omega
  have hcast : (b : Residue) = x.toNat :=
    (cast_mod_add_div two_pow_16 a).trans (cast_mod_add_div two_pow_16 x.toNat)
  refine ⟨b, hfold, hb, hcast, ?_⟩
  rw [← BitVec.toNat_inj, BitVec.ofNat_eq_ofNat, BitVec.toNat_ofNat, Nat.zero_mod]
  omega

section Replace

variable (field : BitVec 16) (diff : BitVec 32)

theorem cast_csumAdd_not :
    ((csumAdd diff (~~~ field.setWidth 32)).toNat : Residue) = diff.toNat - field.toNat := by
  have hfield := field.isLt
  rw [csumAdd_eq_carryAdd, cast_carryAdd two_pow_32, cast_not two_pow_32, BitVec.toNat_setWidth,
    Nat.mod_eq_of_lt (by omega)]
  ring

/-- The complement of a 16-bit field has its upper half set. -/
theorem csumAdd_not_ne_zero : csumAdd diff (~~~ field.setWidth 32) ≠ 0 := by
  have hfield := field.isLt
  rw [csumAdd_eq_carryAdd, Ne, carryAdd_eq_zero_iff, not_and]
  intro _ h
  have hn := congrArg BitVec.toNat h
  rw [BitVec.toNat_not, BitVec.toNat_setWidth, Nat.mod_eq_of_lt (by omega), BitVec.ofNat_eq_ofNat,
    BitVec.toNat_ofNat, Nat.zero_mod] at hn
  omega

theorem csumReplace_false :
    csumReplace field diff false = csumFold (csumAdd diff (~~~ field.setWidth 32)) := by
  simp [csumReplace]

theorem cast_csumReplace :
    ((csumReplace field diff false).toNat : Residue) = field.toNat - diff.toNat := by
  obtain ⟨b, hfold, hb, hcast, -⟩ := toNat_csumFold (csumAdd diff (~~~ field.setWidth 32))
  have hn : ((65535 : ℕ) : Residue) = 0 := by decide
  rw [csumReplace_false, hfold, Nat.cast_sub hb, hcast, cast_csumAdd_not, hn]
  ring

/-- Without the flag the result is never all ones, so that zero is zero. -/
theorem toNat_csumReplace_lt : (csumReplace field diff false).toNat < 65535 := by
  have hne := csumAdd_not_ne_zero field diff
  obtain ⟨b, hfold, -, -, hzero⟩ := toNat_csumFold (csumAdd diff (~~~ field.setWidth 32))
  have hb : b ≠ 0 := fun h ↦ hne (hzero.mp h)
  rw [csumReplace_false, hfold]
  omega

theorem csumReplace_eq_zero_iff :
    csumReplace field diff false = 0 ↔ (field.toNat : Residue) = diff.toNat := by
  have hlt := toNat_csumReplace_lt field diff
  have hones : csumReplace field diff false ≠ BitVec.allOnes 16 := by
    intro h
    rw [h, BitVec.toNat_allOnes] at hlt
    omega
  have hiff := cast_eq_zero_iff (n := 65535) (by norm_num) (csumReplace field diff false)
  rw [or_iff_left hones, cast_csumReplace, sub_eq_zero] at hiff
  exact hiff.symm

end Replace

/-- Marking the field changes nothing: a zero stays, and so does all ones. -/
theorem csumReplace_mark (field : BitVec 16) : csumReplace field 0 true = field := by
  by_cases hzero : field = 0
  · rw [csumReplace, if_pos ⟨rfl, hzero⟩]
  · have hfield := field.isLt
    have hpos : field.toNat ≠ 0 := fun h ↦ hzero (BitVec.eq_of_toNat_eq h)
    have hlt := toNat_csumReplace_lt field 0
    have hmod : (csumReplace field 0 false).toNat % 65535 = field.toNat % 65535 := by
      rw [← ZMod.natCast_eq_natCast_iff', cast_csumReplace]
      simp
    have hnew : csumReplace field 0 true =
        if csumReplace field 0 false = 0 then 0xffff else csumReplace field 0 false := by
      rw [csumReplace, if_neg (fun h ↦ hzero h.2), csumReplace_false]
      simp
    apply BitVec.eq_of_toNat_eq
    rw [hnew]
    split_ifs with hz
    · rw [hz] at hmod
      change 65535 = field.toNat
      simp only [BitVec.ofNat_eq_ofNat, BitVec.toNat_ofNat, Nat.zero_mod] at hmod
      omega
    · have hne : (csumReplace field 0 false).toNat ≠ 0 := fun h ↦ hz (BitVec.eq_of_toNat_eq h)
      omega

/-! ## The checksum field through the two rewrites -/

/-- By how much the addresses' part of the sum grows in a rewrite. -/
def growth (src dst src' dst' : Ipv6Addr) : Residue :=
  addrSum src' + addrSum dst' - addrSum src - addrSum dst

/-- A checksum field as it counts in the sum over the packet. -/
def fieldSum (field : BitVec 16) : Residue :=
  ((256 * field.toNat : ℕ) : Residue)

theorem fieldSum_eq (field : BitVec 16) : fieldSum field = 256 * (field.toNat : Residue) := by
  rw [fieldSum, Nat.cast_mul, Nat.cast_ofNat]

theorem fieldSum_csumReplace (field : BitVec 16) (old new : Ipv6Addr) :
    fieldSum (csumReplace field (bpfCsumDiff old new 0) false) =
      fieldSum field - (addrSum new - addrSum old) := by
  rw [fieldSum_eq, fieldSum_eq, cast_csumReplace, ← cast_bpfCsumDiff]
  ring

theorem csumReplace_eq_zero_iff_fieldSum (field : BitVec 16) (old new : Ipv6Addr) :
    csumReplace field (bpfCsumDiff old new 0) false = 0 ↔
      fieldSum field = addrSum new - addrSum old := by
  rw [csumReplace_eq_zero_iff, fieldSum_eq, ← cast_bpfCsumDiff]
  constructor
  · intro h
    rw [h]
  · intro h
    have h' := congrArg (256 * ·) h
    simpa only [← mul_assoc, sq_256, one_mul] using h'

section Fields

variable {f : Framing} {t : Tuple} {d : List Byte}

theorem csumField_patch_addr {off csum : ℕ} (a : Ipv6Addr) (h : off + 16 ≤ csum) :
    csumField (patch d off a.toList) csum = csumField d csum := by
  apply csumField_congr
  · exact getElem?_patch_of_le _ _ (by rw [Vector.length_toList]; omega)
  · exact getElem?_patch_of_le _ _ (by rw [Vector.length_toList]; omega)

theorem csumField_outboundBytes (h : Carries f t d) (src o : Ipv6Addr) :
    csumField (outboundBytes f t src o d) (csumOf f t.proto) =
      csumReplace (csumReplace (csumField d (csumOf f t.proto)) (bpfCsumDiff t.src src 0) false)
        (bpfCsumDiff t.dst o 0) false := by
  obtain ⟨hcsum, -, -, -⟩ := csumOf_bounds f t.proto
  have hle := h.csum_le
  rw [outboundBytes, csumField_csumPatch (by simpa only [length_csumPatch, length_patch] using hle),
    csumField_csumPatch (by simpa only [length_patch] using hle),
    csumField_patch_addr _ (by omega), csumField_patch_addr _ (by omega)]

/-- The field as `tc_ingress_wan` leaves it, before and after the mark. -/
theorem csumField_returnBytes (h : Carries f t d) (wan : Option Ipv6Addr)
    (synthetic client : Ipv6Addr) :
    csumField (returnBytes f t wan synthetic client d) (csumOf f t.proto) =
      wan.elim id (fun w field ↦ csumReplace field (bpfCsumDiff w t.dst 0) false)
        (csumReplace (csumReplace (csumField d (csumOf f t.proto))
          (bpfCsumDiff t.src synthetic 0) false) (bpfCsumDiff t.dst client 0) false) := by
  obtain ⟨hcsum, -, -, -⟩ := csumOf_bounds f t.proto
  have hle := h.csum_le
  rw [returnBytes, csumField_csumPatch
    (by simpa only [length_devCsumPatch, length_csumPatch, length_patch] using hle),
    csumReplace_mark]
  have hupdated : csumField (csumPatch (csumPatch (patch (patch d (f.offset + 8) synthetic.toList)
      (f.offset + 24) client.toList) (csumOf f t.proto) (bpfCsumDiff t.src synthetic 0) false)
      (csumOf f t.proto) (bpfCsumDiff t.dst client 0) false) (csumOf f t.proto) =
      csumReplace (csumReplace (csumField d (csumOf f t.proto))
        (bpfCsumDiff t.src synthetic 0) false) (bpfCsumDiff t.dst client 0) false := by
    rw [csumField_csumPatch (by simpa only [length_csumPatch, length_patch] using hle),
      csumField_csumPatch (by simpa only [length_patch] using hle),
      csumField_patch_addr _ (by omega), csumField_patch_addr _ (by omega)]
  cases wan with
  | none => exact hupdated
  | some w =>
      rw [devCsumPatch,
        csumField_csumPatch (by simpa only [length_csumPatch, length_patch] using hle), hupdated]
      rfl

theorem fieldSum_outboundBytes (h : Carries f t d) (src o : Ipv6Addr) :
    fieldSum (csumField (outboundBytes f t src o d) (csumOf f t.proto)) =
      fieldSum (csumField d (csumOf f t.proto)) - growth t.src t.dst src o := by
  rw [csumField_outboundBytes h, fieldSum_csumReplace, fieldSum_csumReplace, growth]
  ring

/-- In a dev-mode build the third update makes the checksum one for the WAN
address that the packet was sent to. -/
theorem fieldSum_returnBytes (h : Carries f t d) (wan : Option Ipv6Addr)
    (synthetic client : Ipv6Addr) :
    fieldSum (csumField (returnBytes f t wan synthetic client d) (csumOf f t.proto)) =
      fieldSum (csumField d (csumOf f t.proto)) -
        growth t.src (wan.getD t.dst) synthetic client := by
  rw [csumField_returnBytes h, growth]
  cases wan with
  | none =>
      simp only [Option.elim_none, id_eq, Option.getD_none, fieldSum_csumReplace]
      ring
  | some w =>
      simp only [Option.elim_some, Option.getD_some, fieldSum_csumReplace]
      ring

theorem csumField_outboundBytes_eq_zero_iff (h : Carries f t d) (src o : Ipv6Addr) :
    csumField (outboundBytes f t src o d) (csumOf f t.proto) = 0 ↔
      fieldSum (csumField d (csumOf f t.proto)) = growth t.src t.dst src o := by
  rw [csumField_outboundBytes h, csumReplace_eq_zero_iff_fieldSum, fieldSum_csumReplace, growth,
    sub_eq_iff_eq_add]
  ring_nf

theorem csumField_returnBytes_eq_zero_iff (h : Carries f t d) (wan : Option Ipv6Addr)
    (synthetic client : Ipv6Addr) :
    csumField (returnBytes f t wan synthetic client d) (csumOf f t.proto) = 0 ↔
      fieldSum (csumField d (csumOf f t.proto)) =
        growth t.src (wan.getD t.dst) synthetic client := by
  rw [csumField_returnBytes h, growth]
  cases wan with
  | none =>
      simp only [Option.elim_none, id_eq, Option.getD_none]
      rw [csumReplace_eq_zero_iff_fieldSum, fieldSum_csumReplace, sub_eq_iff_eq_add]
      ring_nf
  | some w =>
      simp only [Option.elim_some, Option.getD_some]
      rw [csumReplace_eq_zero_iff_fieldSum, fieldSum_csumReplace, fieldSum_csumReplace,
        sub_eq_iff_eq_add, sub_eq_iff_eq_add]
      ring_nf

end Fields

/-! ## The sum over the packet -/

section Packets

variable {f : Framing} {src dst : Ipv6Addr} {d d' : List Byte} {len : ℕ}

/-- The checksum field is a word of the segment, inside the L4 header. -/
theorem csumOf_eq (f : Framing) (p : L4Proto) :
    ∃ k, csumOf f p = f.offset + ipv6HdrLen + k ∧ k % 2 = 0 ∧ k + 2 ≤ p.hdrLen := by
  cases p with
  | tcp => exact ⟨16, rfl, rfl, by decide⟩
  | udp => exact ⟨6, rfl, rfl, by decide⟩

theorem byteSum_window_csum {csum : ℕ} (h : csum + 2 ≤ d.length) :
    byteSum (window d csum 2) = fieldSum (csumField d csum) := by
  have h₀ : d[csum]? = some d[csum] := List.getElem?_eq_getElem (by omega)
  have h₁ : d[csum + 1]? = some d[csum + 1] := List.getElem?_eq_getElem (by omega)
  have hw : window d csum 2 = [d[csum], d[csum + 1]] := by
    apply List.ext_getElem?
    intro i
    rw [getElem?_window]
    rcases i with _ | _ | i
    · exact h₀
    · exact h₁
    · simp
  rw [hw, byteSum_eq_reverse, fieldSum_eq, csumField, h₀, h₁, Option.getD_some, Option.getD_some,
    toNat_leWord16]
  rfl

theorem byteSum_segment_split {p : L4Proto} (hp : p.hdrLen ≤ len)
    (hin : f.offset + ipv6HdrLen + len ≤ d.length) :
    ∃ k rest, csumOf f p = f.offset + ipv6HdrLen + k ∧ k + 2 + rest = len ∧
      byteSum (window d (f.offset + ipv6HdrLen) len) =
        byteSum (window d (f.offset + ipv6HdrLen) k) + fieldSum (csumField d (csumOf f p)) +
          byteSum (window d (csumOf f p + 2) rest) := by
  obtain ⟨k, hk, heven, hle⟩ := csumOf_eq f p
  obtain ⟨rest, hrest⟩ : ∃ rest, k + 2 + rest = len := ⟨len - (k + 2), by omega⟩
  refine ⟨k, rest, hk, hrest, ?_⟩
  have hw : window d (f.offset + ipv6HdrLen) len = window d (f.offset + ipv6HdrLen) k ++
      (window d (csumOf f p) 2 ++ window d (csumOf f p + 2) rest) := by
    rw [← hrest, Nat.add_assoc k, window_add, window_add, hk]
  have hfirst : (window d (f.offset + ipv6HdrLen) k).length = k := length_window _ _ _ (by omega)
  have hfield : (window d (csumOf f p) 2).length = 2 := length_window _ _ _ (by omega)
  rw [hw, byteSum_append_of_even (by rw [hfirst]; exact heven),
    byteSum_append_of_even (by rw [hfield]), byteSum_window_csum (by omega)]
  ring

/-- A rewrite that keeps to the addresses and the checksum moves the sum over
the segment by what it does to the checksum field. -/
theorem byteSum_segment_of_rewritten {p : L4Proto}
    (hr : Rewritten f.offset (csumOf f p) src dst d d') (hp : p.hdrLen ≤ len)
    (hin : f.offset + ipv6HdrLen + len ≤ d.length) :
    byteSum (window d' (f.offset + ipv6HdrLen) len) =
      byteSum (window d (f.offset + ipv6HdrLen) len) + fieldSum (csumField d' (csumOf f p)) -
        fieldSum (csumField d (csumOf f p)) := by
  obtain ⟨k, rest, hk, hrest, hd⟩ := byteSum_segment_split (d := d) hp hin
  obtain ⟨k', rest', hk', hrest', hd'⟩ :=
    byteSum_segment_split (d := d') hp (by rw [hr.length]; exact hin)
  obtain rfl : k' = k := by omega
  obtain rfl : rest' = rest := by omega
  have hhdr : ipv6HdrLen = 40 := rfl
  have hbefore := hr.window_same (o := f.offset + ipv6HdrLen) (n := k') (by omega) (by omega)
  have hafter := hr.window_same (o := csumOf f p + 2) (n := rest') (by omega) (by omega)
  rw [hd, hd', hbefore, hafter]
  ring

/-- A packet that verifies still verifies after a rewrite that takes the growth
of the addresses out of the checksum field. -/
theorem Verifies.of_rewritten {t t' : Tuple} (hv : Verifies f t len d)
    (hr : Rewritten f.offset (csumOf f t.proto) t'.src t'.dst d d') (hp : t'.proto = t.proto)
    (hfield : fieldSum (csumField d' (csumOf f t.proto)) =
      fieldSum (csumField d (csumOf f t.proto)) - growth t.src t.dst t'.src t'.dst) :
    Verifies f t' len d' := by
  obtain ⟨hhdr, hin, hsum⟩ := hv
  rw [sum_coveredBytes_iff, byteSum_coveredBytes, length_window _ _ _ hin] at hsum
  refine ⟨by rw [hp]; exact hhdr, by rw [hr.length]; exact hin, ?_⟩
  rw [sum_coveredBytes_iff, byteSum_coveredBytes,
    length_window _ _ _ (by rw [hr.length]; exact hin), hp,
    byteSum_segment_of_rewritten hr hhdr hin, hfield, ← hsum, growth]
  ring

end Packets

/-! ## Validity is kept -/

section Kept

variable {f : Framing} {t : Tuple} {len : ℕ} {s s' : Ctx} {r : Except Abort TcAction}

theorem tcIngress_keeps_verifies (build : Build) (hc : Carries f t s.data)
    (hv : Verifies f t len s.data) (h : exec (tcIngress build) s = (r, s')) :
    ∃ t', Carries f t' s'.data ∧ Verifies f t' len s'.data := by
  rcases tcIngress_cases build s with ⟨a, ha, -⟩ | ⟨f', t', pub, hc', hpre, hpub⟩
  · obtain ⟨-, rfl⟩ := Prod.mk.inj (h.symm.trans ha)
    exact ⟨t, hc, hv⟩
  · obtain ⟨rfl, rfl⟩ := hc.unique hc'
    obtain ⟨-, rfl⟩ := Prod.mk.inj (h.symm.trans (exec_tcIngress_of_publish build hc hpre hpub))
    have hr := rewritten_outboundBytes hc ((s.maps.devWan build).getD pub.src) pub.dst
    exact ⟨_, hr.carries hc, hv.of_rewritten hr rfl (fieldSum_outboundBytes hc _ _)⟩

/-- The reply may carry another destination than the one its checksum is for:
the WAN address, in a dev-mode build that has one. -/
theorem tcIngressWan_verifies (build : Build) {flow : Flow} (hc : Carries f t s.data)
    (hv : Verifies f { t with dst := (s.maps.devWan build).getD t.dst } len s.data)
    (hres : s.maps.resolve t.mirror = some flow) :
    ∃ d', exec (tcIngressWan build) s =
        (.ok (if s.maps.xfrmIfindex[0]! ≠ 0 then .redirect s.maps.xfrmIfindex[0]! else .shot),
          { s with data := d' }) ∧
      Carries f flow.inner.mirror d' ∧ Verifies f flow.inner.mirror len d' := by
  obtain ⟨-, -, -, -, -, hsp, hdp, hp⟩ := (s.maps.resolve_eq_some_iff t.mirror flow).mp hres
  have hr := rewritten_returnBytes hc (s.maps.devWan build) (syntheticIpv6 flow.domainId)
    (clientVipFromId24 flow.clientId)
  refine ⟨_, exec_tcIngressWan_of_resolve build hc hres, ?_, ?_⟩
  · have hcarries := hr.carries hc
    simp only [Tuple.mirror] at hsp hdp hp
    rw [← hsp, ← hdp, ← hp] at hcarries
    exact hcarries
  · exact hv.of_rewritten hr hp (fieldSum_returnBytes hc _ _ _)

theorem tcIngressWan_keeps_verifies (hc : Carries f t s.data) (hv : Verifies f t len s.data)
    (h : exec (tcIngressWan .production) s = (r, s')) :
    ∃ t', Carries f t' s'.data ∧ Verifies f t' len s'.data := by
  rcases tcIngressWan_outcome .production s with ⟨a, ha, -⟩ | ⟨f', t', flow, hc', hres⟩
  · obtain ⟨-, rfl⟩ := Prod.mk.inj (h.symm.trans ha)
    exact ⟨t, hc, hv⟩
  · obtain ⟨rfl, rfl⟩ := hc.unique hc'
    obtain ⟨d', hexec, hcarries, hverifies⟩ := tcIngressWan_verifies .production hc hv hres
    obtain ⟨-, rfl⟩ := Prod.mk.inj (h.symm.trans hexec)
    exact ⟨_, hcarries, hverifies⟩

end Kept

/-- Whatever a program of the production build makes of a packet whose L4
checksum verifies, the result verifies for the addresses it then carries. -/
theorem l4_checksum_preserved (m : Maps) (f : Framing) (t : Tuple) (len : ℕ) (d : List Byte)
    (hc : Carries f t d) (hv : Verifies f t len d) :
    (∀ r s', exec (tcIngress .production) ⟨d, m⟩ = (r, s') →
      ∃ t', Carries f t' s'.data ∧ Verifies f t' len s'.data) ∧
    (∀ r s', exec (tcIngressWan .production) ⟨d, m⟩ = (r, s') →
      ∃ t', Carries f t' s'.data ∧ Verifies f t' len s'.data) :=
  ⟨fun _ _ h ↦ tcIngress_keeps_verifies (s := ⟨d, m⟩) .production hc hv h,
    fun _ _ h ↦ tcIngressWan_keeps_verifies (s := ⟨d, m⟩) hc hv h⟩

/-- A UDP datagram with the given checksum and correct length fields. -/
def udpPacketOf (f : Framing) (t : Tuple) (checksum : BitVec 16) (payload : List Byte) :
    List Byte :=
  let len := (toBeBytes 2 (BitVec.ofNat 16 (udpHdrLen + payload.length))).toList
  linkHeader f ++ ([0x60, 0, 0, 0] ++ (len ++ ([17, 64] ++ (t.src.toList ++ (t.dst.toList ++
    ((toBeBytes 2 t.srcPort).toList ++ ((toBeBytes 2 t.dstPort).toList ++ (len ++
      ((toBeBytes 2 checksum).toList ++ payload)))))))))

def demoUdpFlow : Flow := ⟨0x10000, 7, 50000, 443, .udp⟩

/-- A query of the first client of the pool, with a checksum that verifies. -/
def demoQuery : List Byte :=
  udpPacketOf .rawIpv6 demoUdpFlow.inner 0x7bed [0x6d, 0x3a]

theorem l4_checksum_preserved_demoQuery :
    Verifies .rawIpv6 demoUdpFlow.inner 10 demoQuery ∧
      (exec (tcIngress .production) ⟨demoQuery, demoMaps⟩).2.data ≠ demoQuery ∧
      ∃ t', Carries .rawIpv6 t' (exec (tcIngress .production) ⟨demoQuery, demoMaps⟩).2.data ∧
        Verifies .rawIpv6 t' 10 (exec (tcIngress .production) ⟨demoQuery, demoMaps⟩).2.data := by
  have hv : Verifies .rawIpv6 demoUdpFlow.inner 10 demoQuery := by decide +kernel
  have hc : Carries .rawIpv6 demoUdpFlow.inner demoQuery := by decide +kernel
  have hrun := (Prod.mk.eta (p := exec (tcIngress .production) ⟨demoQuery, demoMaps⟩)).symm
  exact ⟨hv, by decide +kernel, (l4_checksum_preserved demoMaps _ _ _ _ hc hv).1 _ _ hrun⟩

/-! ## When the field becomes zero -/

section Zero

variable (build : Build) (m : Maps) (f : Framing) (t : Tuple) (d : List Byte)

/-- The checksum field is not congruent to the growth of the addresses when the
packet is published. -/
def OutboundFieldSafe : Prop :=
  ∀ pub, m.publish (Flow.ofInner t) = some pub →
    fieldSum (csumField d (csumOf f t.proto)) ≠
      growth t.src t.dst ((m.devWan build).getD pub.src) pub.dst

/-- The same for the reply of a flow. -/
def ReturnFieldSafe : Prop :=
  ∀ flow, m.resolve t.mirror = some flow →
    fieldSum (csumField d (csumOf f t.proto)) ≠
      growth t.src ((m.devWan build).getD t.dst) (syntheticIpv6 flow.domainId)
        (clientVipFromId24 flow.clientId)

end Zero

/-- A rewritten datagram has a non-zero checksum exactly if its field was not
congruent to the growth of the addresses: neither the updates nor the mark at
the end keep zero out of the field. -/
theorem udp_checksum_ne_zero_iff (build : Build) (m : Maps) (f : Framing) (t : Tuple)
    (d : List Byte) (hc : Carries f t d) (hp : t.proto = .udp) :
    (∀ r s', exec (tcIngress build) ⟨d, m⟩ = (r, s') → s'.data ≠ d →
      (csumField s'.data (csumOf f .udp) ≠ 0 ↔ OutboundFieldSafe build m f t d)) ∧
    (∀ r s', exec (tcIngressWan build) ⟨d, m⟩ = (r, s') → s'.data ≠ d →
      (csumField s'.data (csumOf f .udp) ≠ 0 ↔ ReturnFieldSafe build m f t d)) := by
  rw [← hp]
  constructor
  · intro r s' h hne
    rcases tcIngress_cases build ⟨d, m⟩ with ⟨a, ha, -⟩ | ⟨f', t', pub, hc', hpre, hpub⟩
    · obtain ⟨-, rfl⟩ := Prod.mk.inj (h.symm.trans ha)
      exact absurd rfl hne
    · obtain ⟨rfl, rfl⟩ := hc.unique hc'
      obtain ⟨-, rfl⟩ := Prod.mk.inj
        (h.symm.trans (exec_tcIngress_of_publish (s := ⟨d, m⟩) build hc hpre hpub))
      rw [OutboundFieldSafe, Ne, csumField_outboundBytes_eq_zero_iff hc]
      constructor
      · rintro hsafe pub' hpub'
        cases hpub.symm.trans hpub'
        exact hsafe
      · intro hsafe
        exact hsafe pub hpub
  · intro r s' h hne
    rcases tcIngressWan_outcome build ⟨d, m⟩ with ⟨a, ha, -⟩ | ⟨f', t', flow, hc', hres⟩
    · obtain ⟨-, rfl⟩ := Prod.mk.inj (h.symm.trans ha)
      exact absurd rfl hne
    · obtain ⟨rfl, rfl⟩ := hc.unique hc'
      obtain ⟨-, rfl⟩ := Prod.mk.inj
        (h.symm.trans (exec_tcIngressWan_of_resolve (s := ⟨d, m⟩) build hc hres))
      rw [ReturnFieldSafe, Ne, csumField_returnBytes_eq_zero_iff hc]
      constructor
      · rintro hsafe flow' hres'
        cases hres.symm.trans hres'
        exact hsafe
      · intro hsafe
        exact hsafe flow hres

def demoUdpAddr : Ipv6Addr :=
  (demoUdpFlow.proxySrc testKey).getD (Vector.replicate 16 0)

/-- An answer to the proxy-source address of the flow. -/
def demoAnswer : List Byte :=
  udpPacketOf .ethernet ⟨demoOrigin, demoUdpAddr, 443, 50000, .udp⟩ 0x8412 [0xe9, 0x27]

/-- The same query with another payload, and a checksum that verifies too. -/
def demoSafeQuery : List Byte :=
  udpPacketOf .rawIpv6 demoUdpFlow.inner 0x7bee [0x6d, 0x39]

theorem udp_checksum_ne_zero_demoSafeQuery :
    Verifies .rawIpv6 demoUdpFlow.inner 10 demoSafeQuery ∧
      csumField (exec (tcIngress .production) ⟨demoSafeQuery, demoMaps⟩).2.data 46 ≠ 0 ∧
      OutboundFieldSafe .production demoMaps .rawIpv6 demoUdpFlow.inner demoSafeQuery := by
  have hc : Carries .rawIpv6 demoUdpFlow.inner demoSafeQuery := by decide +kernel
  have hne : csumField (exec (tcIngress .production) ⟨demoSafeQuery, demoMaps⟩).2.data 46 ≠ 0 := by
    decide +kernel
  have hrun := (Prod.mk.eta (p := exec (tcIngress .production) ⟨demoSafeQuery, demoMaps⟩)).symm
  have hiff := (udp_checksum_ne_zero_iff .production demoMaps _ _ _ hc rfl).1 _ _ hrun
    (by decide +kernel)
  exact ⟨by decide +kernel, hne, hiff.mp hne⟩

theorem udp_checksum_becomes_zero :
    (Verifies .rawIpv6 demoUdpFlow.inner 10 demoQuery ∧ csumField demoQuery 46 ≠ 0 ∧
      (exec (tcIngress .production) ⟨demoQuery, demoMaps⟩).1 = .ok .ok ∧
      (exec (tcIngress .production) ⟨demoQuery, demoMaps⟩).2.data ≠ demoQuery ∧
      csumField (exec (tcIngress .production) ⟨demoQuery, demoMaps⟩).2.data 46 = 0) ∧
    (Verifies .ethernet ⟨demoOrigin, demoUdpAddr, 443, 50000, .udp⟩ 10 demoAnswer ∧
      csumField demoAnswer 60 ≠ 0 ∧
      (exec (tcIngressWan .production) ⟨demoAnswer, demoMaps⟩).1 = .ok (.redirect 5) ∧
      csumField (exec (tcIngressWan .production) ⟨demoAnswer, demoMaps⟩).2.data 60 = 0) := by
  decide +kernel

end PrototypeNet
