import PrototypeNet.Lib.Text
import PrototypeNet.Common.Address

/-!
# Reading the key

`parse_proxy_key_hex` takes the key as hexadecimal text.  It counts bytes,
slices the text by bytes and hands each slice to a general integer parser.
Texts that are not plain digits can therefore pass, as can ones on which a
slice panics; the main result says which.
-/

namespace PrototypeNet

open ByteWords Text

/-! ## The function -/

/-- How a computation stops early: a panic, or an error with its contexts,
outermost first. -/
inductive Stop
  | panicked
  | error (chain : List String)
  deriving DecidableEq, Repr

/-- One turn of the loop, on the slice it takes. -/
def parsePair (position : ℕ) : Option (List Char) → Except Stop Byte
  | none => .error .panicked
  | some pair =>
      (fromStrRadix16 pair).mapError fun e ↦
        .error ["invalid hex at position " ++ toString position, e.message]

def readByte (hex : List Char) (i : ℕ) : Except Stop Byte :=
  parsePair (i * 2) (slice hex (i * 2) (i * 2 + 2))

def keyOfBytes (bytes : List Byte) : ProxySrcKey where
  princeKey := Vector.ofFn fun i ↦ bytes[i.val]!
  siphashKey := Vector.ofFn fun i ↦ bytes[16 + i.val]!

def parseProxyKeyHex (hex : String) : Except Stop ProxySrcKey :=
  let hex := trim hex.toList
  if byteLen hex ≠ 64 then
    .error (.error ["PROXY_ADDR_KEY_HEX must be exactly 64 hex characters (32 bytes), got " ++
      toString (byteLen hex)])
  else do
    let bytes ← (List.range 32).mapM (readByte hex)
    let key := keyOfBytes bytes
    if key.isZero then .error (.error ["PROXY_ADDR_KEY_HEX must not be all zeros"])
    else return key

/-! ## What it should accept -/

def IsKeyText (t : List Char) : Prop :=
  t.length = 64 ∧ (∀ c ∈ t, (hexDigit c).isSome) ∧ ∃ c ∈ t, c ≠ '0'

/-- The bytes that pairs of digits stand for, the first digit the higher one. -/
def digitBytes : List Char → List Byte
  | c :: d :: t => BitVec.ofNat 8 ((hexDigit c).getD 0 * 16 + (hexDigit d).getD 0) :: digitBytes t
  | _ => []

/-- The parser does not panic on `s` and accepts it exactly if it is a key. -/
def ParsesExactly (s : String) : Prop :=
  parseProxyKeyHex s ≠ .error .panicked ∧
    ∀ key, parseProxyKeyHex s = .ok key ↔
      IsKeyText (trim s.toList) ∧ key = keyOfBytes (digitBytes (trim s.toList))

/-! ## The pairs the integer parser takes -/

/-- What is left of a text behind its leading pairs that the integer parser
takes: two digits, or a plus sign and a digit. -/
def afterPairs : List Char → List Char
  | c :: d :: t => if (pairValue c d).isSome then afterPairs t else c :: d :: t
  | t => t

def pairBytes : List Char → List Byte
  | c :: d :: t => BitVec.ofNat 8 ((pairValue c d).getD 0) :: pairBytes t
  | _ => []

theorem afterPairs_of_some {c d : Char} {t : List Char} {v : ℕ} (h : pairValue c d = some v) :
    afterPairs (c :: d :: t) = afterPairs t := by
  rw [afterPairs, h]
  rfl

theorem afterPairs_of_none {c d : Char} {t : List Char} (h : pairValue c d = none) :
    afterPairs (c :: d :: t) = c :: d :: t := by
  rw [afterPairs, h]
  rfl

theorem byteLen_afterPairs_le (t : List Char) : byteLen (afterPairs t) ≤ byteLen t := by
  induction t using afterPairs.induct with
  | case1 c d t hsome ih =>
      obtain ⟨v, hv⟩ := Option.isSome_iff_exists.mp hsome
      rw [afterPairs_of_some hv, byteLen_cons, byteLen_cons]
      omega
  | case2 c d t hnone =>
      rw [afterPairs_of_none (Option.not_isSome_iff_eq_none.mp hnone)]
  | case3 t hshort =>
      rw [afterPairs]
      exact hshort

/-- Where the loop ends on a text whose first byte is at `position`. -/
def pairsOutcome (position : ℕ) (t : List Char) : Except Stop (List Byte) :=
  if afterPairs t = [] then .ok (pairBytes t)
  else if (cut (afterPairs t) 2).isSome then
    .error (.error ["invalid hex at position " ++
      toString (position + (byteLen t - byteLen (afterPairs t))),
      ParseIntError.invalidDigit.message])
  else .error .panicked

theorem pairsOutcome_of_some {c d : Char} {t : List Char} {v position : ℕ}
    (h : pairValue c d = some v) :
    pairsOutcome position (c :: d :: t) =
      (pairsOutcome (position + 2) t).map (BitVec.ofNat 8 v :: ·) := by
  obtain ⟨-, hc, hd⟩ := pairValue_eq_some h
  have hle := byteLen_afterPairs_le t
  have hposition : position + (byteLen (c :: d :: t) - byteLen (afterPairs t)) =
      position + 2 + (byteLen t - byteLen (afterPairs t)) := by
    rw [byteLen_cons, byteLen_cons, hc, hd]
    omega
  rw [pairsOutcome, pairsOutcome, afterPairs_of_some h, hposition]
  split
  · rw [pairBytes, h]
    rfl
  · split <;> rfl

theorem pairsOutcome_of_stuck {t : List Char} (hne : t ≠ []) (h : afterPairs t = t)
    (position : ℕ) :
    pairsOutcome position t =
      if (cut t 2).isSome then
        .error (.error ["invalid hex at position " ++ toString position,
          ParseIntError.invalidDigit.message])
      else .error .panicked := by
  rw [pairsOutcome, h, if_neg hne, Nat.sub_self, Nat.add_zero]

/-- A slice that is no pair: a wide character is no digit, and a cut inside a
character panics. -/
theorem parsePair_of_stuck {c : Char} {t : List Char} (h : afterPairs (c :: t) = c :: t)
    (hlen : 2 ≤ byteLen (c :: t)) (position : ℕ) :
    ∃ e, parsePair position ((cut (c :: t) 2).map Prod.fst) = .error e ∧
      pairsOutcome position (c :: t) = .error e := by
  rw [pairsOutcome_of_stuck (List.cons_ne_nil c t) h]
  have hpos := c.utf8Size_pos
  rcases lt_trichotomy c.utf8Size 2 with hone | htwo | hwide
  · rw [byteLen_cons] at hlen
    rw [cut_cons (by norm_num) hone.le, show 2 - c.utf8Size = 1 by omega]
    cases t with
    | nil =>
        rw [byteLen_nil] at hlen
        omega
    | cons d t =>
        have hd := d.utf8Size_pos
        by_cases hdone : d.utf8Size = 1
        · have hnone : pairValue c d = none := by
            cases hv : pairValue c d with
            | none => rfl
            | some v =>
                have hshorter := byteLen_afterPairs_le t
                rw [afterPairs_of_some hv] at h
                rw [h, byteLen_cons, byteLen_cons] at hshorter
                omega
          rw [cut_cons (by norm_num) hdone.le, show 1 - d.utf8Size = 0 by omega, cut_zero]
          refine ⟨_, ?_, rfl⟩
          simp only [Option.map_some, parsePair, fromStrRadix16_pair, hnone]
          rfl
        · rw [cut_cons_of_lt (by norm_num) (by omega)]
          exact ⟨_, rfl, rfl⟩
  · rw [cut_cons (by norm_num) htwo.le, show 2 - c.utf8Size = 0 by omega, cut_zero]
    refine ⟨_, ?_, rfl⟩
    simp only [Option.map_some, parsePair, fromStrRadix16_wide (show c.utf8Size ≠ 1 by omega)]
    rfl
  · rw [cut_cons_of_lt (by norm_num) hwide]
    exact ⟨_, rfl, rfl⟩

theorem readByte_append {done rest : List Char} {i : ℕ} (h : byteLen done = i * 2) :
    readByte (done ++ rest) i = parsePair (i * 2) ((cut rest 2).map Prod.fst) := by
  rw [readByte, ← h, slice_append]

theorem afterPairs_cons_cases (c d : Char) (t : List Char) :
    (∃ v, pairValue c d = some v) ∨ afterPairs (c :: d :: t) = c :: d :: t := by
  cases h : pairValue c d with
  | none => exact .inr (afterPairs_of_none h)
  | some v => exact .inl ⟨v, rfl⟩

/-- The loop, from a position where a character starts. -/
theorem mapM_readByte {n i : ℕ} {done rest : List Char} (hdone : byteLen done = i * 2)
    (hrest : byteLen rest = n * 2) :
    (List.range' i n).mapM (readByte (done ++ rest)) = pairsOutcome (i * 2) rest := by
  induction n generalizing i done rest with
  | zero =>
      cases rest with
      | nil => rfl
      | cons c t =>
          have := c.utf8Size_pos
          rw [byteLen_cons] at hrest
          omega
  | succ n ih =>
      have hstuck : ∀ c t, rest = c :: t → afterPairs (c :: t) = c :: t →
          (List.range' i (n + 1)).mapM (readByte (done ++ rest)) = pairsOutcome (i * 2) rest := by
        rintro c t rfl h
        obtain ⟨e, hparse, houtcome⟩ := parsePair_of_stuck h (by omega) (i * 2)
        rw [List.range'_succ, List.mapM_cons, readByte_append hdone, hparse, houtcome]
        rfl
      rcases rest with _ | ⟨c, _ | ⟨d, t⟩⟩
      · rw [byteLen_nil] at hrest
        omega
      · exact hstuck c [] rfl rfl
      · rcases afterPairs_cons_cases c d t with ⟨v, hv⟩ | h
        · obtain ⟨-, hc, hd⟩ := pairValue_eq_some hv
          rw [byteLen_cons, byteLen_cons, hc, hd] at hrest
          have hcut : cut (c :: d :: t) 2 = some ([c, d], t) := by
            rw [show c :: d :: t = [c, d] ++ t from rfl,
              show 2 = byteLen [c, d] by simp [hc, hd], cut_byteLen]
          have hnext : byteLen (done ++ [c, d]) = (i + 1) * 2 := by
            rw [byteLen_append, hdone, byteLen_cons, byteLen_cons, byteLen_nil, hc, hd]
            omega
          have hloop := ih hnext (show byteLen t = n * 2 by omega)
          rw [List.append_assoc, show [c, d] ++ t = c :: d :: t from rfl] at hloop
          rw [List.range'_succ, List.mapM_cons, readByte_append hdone, hcut, hloop,
            pairsOutcome_of_some hv, Option.map_some, parsePair, fromStrRadix16_pair, hv,
            show (i + 1) * 2 = i * 2 + 2 by omega]
          cases pairsOutcome (i * 2 + 2) t <;> rfl
        · exact hstuck c (d :: t) rfl h

/-! ## Texts made of pairs -/

theorem afterPairs_eq_nil_cons {c d : Char} {t : List Char} (h : afterPairs (c :: d :: t) = []) :
    (∃ v, pairValue c d = some v) ∧ afterPairs t = [] := by
  rcases afterPairs_cons_cases c d t with ⟨v, hv⟩ | hstuck
  · rw [afterPairs_of_some hv] at h
    exact ⟨⟨v, hv⟩, h⟩
  · rw [hstuck] at h
    cases h

/-- Induction over the pairs of a text that consists of them. -/
theorem paired_induction {P : List Char → Prop} (hnil : P [])
    (hpair : ∀ c d t v, pairValue c d = some v → P t → P (c :: d :: t)) {t : List Char}
    (h : afterPairs t = []) : P t := by
  induction t using afterPairs.induct with
  | case1 c d t hsome ih =>
      obtain ⟨⟨v, hv⟩, ht⟩ := afterPairs_eq_nil_cons h
      exact hpair c d t v hv (ih ht)
  | case2 c d t hnone =>
      obtain ⟨⟨v, hv⟩, -⟩ := afterPairs_eq_nil_cons h
      rw [hv] at hnone
      exact absurd rfl hnone
  | case3 t hshort =>
      rw [afterPairs] at h
      · rw [h]
        exact hnil
      · exact hshort

theorem length_of_paired {t : List Char} (h : afterPairs t = []) :
    t.length = byteLen t ∧ (pairBytes t).length * 2 = byteLen t := by
  refine paired_induction (P := fun t ↦ t.length = byteLen t ∧
    (pairBytes t).length * 2 = byteLen t) ⟨rfl, rfl⟩ ?_ h
  rintro c d t v hv ⟨hlen, hbytes⟩
  obtain ⟨-, hc, hd⟩ := pairValue_eq_some hv
  rw [byteLen_cons, byteLen_cons, hc, hd, pairBytes, List.length_cons, List.length_cons,
    List.length_cons]
  omega

theorem hexDigit_eq_zero_iff (c : Char) : hexDigit c = some 0 ↔ c = '0' := by
  constructor
  · intro h
    have hn : c.toNat = 48 := by
      simp only [hexDigit] at h
      grind
    rw [← Char.ofNat_toNat c, hn]
  · rintro rfl
    rfl

theorem pairValue_parts {c d : Char} {v : ℕ} (h : pairValue c d = some v) :
    ∃ high low, (if c = '+' then some 0 else hexDigit c) = some high ∧ hexDigit d = some low ∧
      v = high * 16 + low := by
  obtain ⟨high, hhigh, hrest⟩ := Option.bind_eq_some_iff.mp h
  obtain ⟨low, hlow, rfl⟩ := Option.map_eq_some_iff.mp hrest
  exact ⟨high, low, hhigh, hlow, rfl⟩

/-- A pair is zero if it has no digit but zero. -/
theorem pairValue_eq_zero_iff {c d : Char} {v : ℕ} (h : pairValue c d = some v) :
    v = 0 ↔ (c = '+' ∨ c = '0') ∧ (d = '+' ∨ d = '0') := by
  obtain ⟨high, low, hhigh, hlow, rfl⟩ := pairValue_parts h
  have hd : d ≠ '+' := by
    rintro rfl
    cases hlow
  have hlow0 : low = 0 ↔ d = '0' := by
    rw [← hexDigit_eq_zero_iff, hlow, Option.some_inj]
  have hhigh0 : high = 0 ↔ c = '+' ∨ c = '0' := by
    split at hhigh
    · rename_i hplus
      cases hhigh
      simp [hplus]
    · rename_i hplus
      rw [← hexDigit_eq_zero_iff, hhigh, Option.some_inj]
      simp [hplus]
  rw [← hhigh0, or_iff_right hd, ← hlow0]
  omega

theorem pairBytes_eq_zero_iff {t : List Char} (h : afterPairs t = []) :
    (∀ b ∈ pairBytes t, b = 0#8) ↔ ∀ c ∈ t, c = '+' ∨ c = '0' := by
  refine paired_induction (P := fun t ↦ (∀ b ∈ pairBytes t, b = 0#8) ↔
    ∀ c ∈ t, c = '+' ∨ c = '0') (by simp [pairBytes]) ?_ h
  intro c d t v hv ih
  have hbyte : BitVec.ofNat 8 v = 0#8 ↔ v = 0 := by
    have hlt := (pairValue_eq_some hv).1
    rw [← BitVec.toNat_inj, BitVec.toNat_ofNat, BitVec.toNat_ofNat, Nat.mod_eq_of_lt hlt]
  rw [pairBytes, hv, List.forall_mem_cons, List.forall_mem_cons, List.forall_mem_cons, ih,
    Option.getD_some, hbyte, pairValue_eq_zero_iff hv, and_assoc]

theorem digits_of_paired {t : List Char} (h : afterPairs t = []) (hplus : '+' ∉ t) :
    (∀ c ∈ t, (hexDigit c).isSome) ∧ pairBytes t = digitBytes t := by
  refine paired_induction (P := fun t ↦ '+' ∉ t → (∀ c ∈ t, (hexDigit c).isSome) ∧
    pairBytes t = digitBytes t) (by simp [pairBytes, digitBytes]) ?_ h hplus
  intro c d t v hv ih hplus
  obtain ⟨high, low, hhigh, hlow, rfl⟩ := pairValue_parts hv
  rw [List.mem_cons, List.mem_cons, not_or, not_or] at hplus
  rw [if_neg (Ne.symm hplus.1)] at hhigh
  obtain ⟨hdigits, hbytes⟩ := ih hplus.2.2
  refine ⟨?_, ?_⟩
  · rw [List.forall_mem_cons, List.forall_mem_cons, hhigh, hlow]
    exact ⟨rfl, rfl, hdigits⟩
  · rw [pairBytes, digitBytes, hv, hhigh, hlow, hbytes]
    rfl

/-- Digits come in pairs that the integer parser takes. -/
theorem paired_of_digits {t : List Char} (heven : t.length % 2 = 0)
    (h : ∀ c ∈ t, (hexDigit c).isSome) : afterPairs t = [] ∧ '+' ∉ t := by
  constructor
  · induction t using afterPairs.induct with
    | case1 c d t hsome ih =>
        obtain ⟨v, hv⟩ := Option.isSome_iff_exists.mp hsome
        rw [afterPairs_of_some hv]
        refine ih ?_ fun x hx ↦ h x (List.mem_cons_of_mem _ (List.mem_cons_of_mem _ hx))
        rw [List.length_cons, List.length_cons] at heven
        omega
    | case2 c d t hnone =>
        obtain ⟨high, hhigh⟩ := Option.isSome_iff_exists.mp (h c List.mem_cons_self)
        obtain ⟨low, hlow⟩ := Option.isSome_iff_exists.mp
          (h d (List.mem_cons_of_mem _ List.mem_cons_self))
        have hc : c ≠ '+' := by
          rintro rfl
          cases hhigh
        rw [pairValue, if_neg hc, hhigh, hlow] at hnone
        exact absurd rfl hnone
    | case3 t hshort =>
        rcases t with _ | ⟨c, _ | ⟨d, t⟩⟩
        · rfl
        · cases heven
        · exact (hshort c d t rfl).elim
  · intro hmem
    cases h '+' hmem

/-! ## The parser as a whole -/

theorem isZero_keyOfBytes {bytes : List Byte} (h : bytes.length = 32) :
    (keyOfBytes bytes).isZero = true ↔ ∀ b ∈ bytes, b = 0#8 := by
  rw [ProxySrcKey.isZero, beq_iff_eq, ProxySrcKey.acc_eq_zero_iff]
  simp only [keyOfBytes, Vector.getElem_ofFn]
  constructor
  · intro hall b hb
    obtain ⟨i, hi, rfl⟩ := List.getElem_of_mem hb
    by_cases hlow : i < 16
    · simpa [hi] using (hall i hlow).1
    · have hhigh := (hall (i - 16) (by omega)).2
      rw [show 16 + (i - 16) = i by omega] at hhigh
      simpa [hi] using hhigh
  · intro hall i hi
    rw [getElem!_pos bytes i (by omega), getElem!_pos bytes (16 + i) (by omega)]
    exact ⟨hall _ (List.getElem_mem _), hall _ (List.getElem_mem _)⟩

theorem parseProxyKeyHex_of_length {s : String} (h : byteLen (trim s.toList) = 64) :
    parseProxyKeyHex s = (pairsOutcome 0 (trim s.toList)).bind fun bytes ↦
      if (keyOfBytes bytes).isZero then
        .error (.error ["PROXY_ADDR_KEY_HEX must not be all zeros"])
      else .ok (keyOfBytes bytes) := by
  have hloop : (List.range 32).mapM (readByte (trim s.toList)) =
      pairsOutcome 0 (trim s.toList) := by
    have hdone : byteLen [] = 0 * 2 := rfl
    have hread := mapM_readByte (n := 32) hdone h
    rwa [List.nil_append, ← List.range_eq_range'] at hread
  rw [parseProxyKeyHex, if_neg (not_not_intro h), hloop]
  rfl

/-- A text of 64 bytes that is made of pairs is read as a key unless all its
digits are zero. -/
theorem parseProxyKeyHex_of_paired {s : String} (hlen : byteLen (trim s.toList) = 64)
    (hpaired : afterPairs (trim s.toList) = []) :
    parseProxyKeyHex s =
      if (keyOfBytes (pairBytes (trim s.toList))).isZero then
        .error (.error ["PROXY_ADDR_KEY_HEX must not be all zeros"])
      else .ok (keyOfBytes (pairBytes (trim s.toList))) := by
  rw [parseProxyKeyHex_of_length hlen, pairsOutcome, if_pos hpaired]
  rfl

theorem isKeyText_paired {t : List Char} (h : IsKeyText t) :
    byteLen t = 64 ∧ afterPairs t = [] ∧ '+' ∉ t := by
  obtain ⟨hlen, hdigits, -⟩ := h
  obtain ⟨hpaired, hplus⟩ := paired_of_digits (by rw [hlen]) hdigits
  exact ⟨by rw [← (length_of_paired hpaired).1, hlen], hpaired, hplus⟩

/-- Refusing a text that is no key is exact. -/
theorem parsesExactly_of_refused {s : String} {chain : List String}
    (h : parseProxyKeyHex s = .error (.error chain)) (hkey : ¬ IsKeyText (trim s.toList)) :
    ParsesExactly s := by
  rw [ParsesExactly, h]
  exact ⟨nofun, fun key ↦ ⟨nofun, fun hk ↦ absurd hk.1 hkey⟩⟩

/-- On a text of pairs the parser is exact if there is no sign among them, or
nothing but zeros besides. -/
theorem parsesExactly_of_paired {s : String} (hlen : byteLen (trim s.toList) = 64)
    (hpaired : afterPairs (trim s.toList) = []) :
    ParsesExactly s ↔ '+' ∉ trim s.toList ∨ ∀ c ∈ trim s.toList, c = '+' ∨ c = '0' := by
  have hparse := parseProxyKeyHex_of_paired hlen hpaired
  obtain ⟨htlen, hbytes⟩ := length_of_paired hpaired
  have hcount : (pairBytes (trim s.toList)).length = 32 := by omega
  have hzero := (isZero_keyOfBytes hcount).trans (pairBytes_eq_zero_iff hpaired)
  by_cases hz : ∀ c ∈ trim s.toList, c = '+' ∨ c = '0'
  · rw [if_pos (hzero.mpr hz)] at hparse
    have hkey : ¬ IsKeyText (trim s.toList) := by
      intro hkey
      obtain ⟨c, hc, hne⟩ := hkey.2.2
      rcases hz c hc with rfl | rfl
      · exact absurd hc (isKeyText_paired hkey).2.2
      · exact absurd rfl hne
    exact ⟨fun _ ↦ .inr hz, fun _ ↦ parsesExactly_of_refused hparse hkey⟩
  · rw [if_neg fun h ↦ hz (hzero.mp h)] at hparse
    rw [ParsesExactly, hparse, or_iff_left hz]
    constructor
    · rintro ⟨-, hexact⟩
      exact (isKeyText_paired ((hexact _).mp rfl).1).2.2
    · intro hplus
      obtain ⟨hdigits, heq⟩ := digits_of_paired hpaired hplus
      have hnonzero : ∃ c ∈ trim s.toList, c ≠ '0' := by
        by_contra hall
        push Not at hall
        exact hz fun c hc ↦ .inr (hall c hc)
      refine ⟨by simp, fun key ↦ ?_⟩
      rw [← heq, Except.ok.injEq, eq_comm]
      exact ⟨fun h ↦ ⟨⟨htlen.trans hlen, hdigits, hnonzero⟩, h⟩, fun h ↦ h.2⟩

/-- The texts on which the parser is exact, by what stands behind the pairs it
takes. -/
theorem key_parser_exact_iff (s : String) :
    ParsesExactly s ↔
      byteLen (trim s.toList) ≠ 64 ∨
      (afterPairs (trim s.toList) = [] ∧
        ('+' ∉ trim s.toList ∨ ∀ c ∈ trim s.toList, c = '+' ∨ c = '0')) ∨
      (cut (afterPairs (trim s.toList)) 2).isSome := by
  by_cases hlen : byteLen (trim s.toList) = 64
  · by_cases hpaired : afterPairs (trim s.toList) = []
    · rw [parsesExactly_of_paired hlen hpaired]
      simp [hlen, hpaired, cut]
    · have hkey : ¬ IsKeyText (trim s.toList) := fun h ↦ hpaired (isKeyText_paired h).2.1
      have hparse := parseProxyKeyHex_of_length hlen
      rw [pairsOutcome, if_neg hpaired] at hparse
      by_cases hcut : (cut (afterPairs (trim s.toList)) 2).isSome
      · rw [if_pos hcut] at hparse
        exact ⟨fun _ ↦ .inr (.inr hcut), fun _ ↦ parsesExactly_of_refused hparse hkey⟩
      · rw [if_neg hcut] at hparse
        refine ⟨fun h ↦ absurd hparse h.1, ?_⟩
        rintro (h | h | h)
        · exact absurd hlen h
        · exact absurd h.1 hpaired
        · exact absurd h hcut
  · have hparse : parseProxyKeyHex s = .error (.error [_]) := if_pos hlen
    have hkey : ¬ IsKeyText (trim s.toList) := fun h ↦ hlen (isKeyText_paired h).1
    exact ⟨fun _ ↦ .inl hlen, fun _ ↦ parsesExactly_of_refused hparse hkey⟩

/-- Signs pass for digits, and a character across a slice boundary panics. -/
theorem key_parser_takes_signs_and_panics :
    parseProxyKeyHex (String.ofList ((List.replicate 32 ['+', '1']).flatten)) =
      .ok ⟨Vector.replicate 16 1, Vector.replicate 16 1⟩ ∧
    parseProxyKeyHex (String.ofList ('0' :: '€' :: List.replicate 60 '0')) = .error .panicked := by
  constructor
  · rw [parseProxyKeyHex, String.toList_ofList]
    decide +kernel
  · rw [parseProxyKeyHex, String.toList_ofList]
    decide +kernel

end PrototypeNet
