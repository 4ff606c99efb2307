import PrototypeNet.Lib.Numerals

/-!
# IPv6 addresses as text

An address is its eight groups.  The reader takes what the address parser of
Rust's standard library takes: groups separated by colons, one `::` for a run
of zeros, an IPv4 address in place of the last two groups.  The printer writes
the one form `Display` chooses, and the reader gives the address back.
-/

namespace Ipv6Text

open Numerals

abbrev Group := BitVec 16

abbrev Ipv4 := BitVec 8 × BitVec 8 × BitVec 8 × BitVec 8

/-! ## The reader -/

def readGivenChar (c : Char) : List Char → Option (List Char)
  | [] => none
  | d :: cs => if d = c then some cs else none

/-- The separator stands in front of every part but the first. -/
def readSeparator {α : Type*} (sep : Char) (index : ℕ)
    (inner : List Char → Option (α × List Char)) (cs : List Char) : Option (α × List Char) :=
  if 0 < index then (readGivenChar sep cs).bind inner else inner cs

def readOctet (cs : List Char) : Option (BitVec 8 × List Char) :=
  (readNumber 10 3 false 256 cs).map fun (n, cs) ↦ (BitVec.ofNat 8 n, cs)

def readIpv4Addr (cs : List Char) : Option (Ipv4 × List Char) := do
  let (one, cs) ← readSeparator '.' 0 readOctet cs
  let (two, cs) ← readSeparator '.' 1 readOctet cs
  let (three, cs) ← readSeparator '.' 2 readOctet cs
  let (four, cs) ← readSeparator '.' 3 readOctet cs
  return ((one, two, three, four), cs)

def readGroup (cs : List Char) : Option (Group × List Char) :=
  (readNumber 16 4 true 65536 cs).map fun (n, cs) ↦ (BitVec.ofNat 16 n, cs)

/-- An embedded IPv4 address needs two groups. -/
def readEmbedded (remaining i : ℕ) (cs : List Char) : Option (Ipv4 × List Char) :=
  if 0 < remaining then readSeparator ':' i readIpv4Addr cs else none

/-- Read groups from the `i`-th on while there is room: the groups, whether they
end in an IPv4 address, and the rest. -/
def readGroups : ℕ → ℕ → List Char → List Group × Bool × List Char
  | 0, _, cs => ([], false, cs)
  | remaining + 1, i, cs =>
      match readEmbedded remaining i cs with
      | some ((one, two, three, four), cs) => ([one ++ two, three ++ four], true, cs)
      | none =>
          match readSeparator ':' i readGroup cs with
          | none => ([], false, cs)
          | some (g, cs) =>
              let (gs, ipv4, cs) := readGroups remaining (i + 1) cs
              (g :: gs, ipv4, cs)

/-- The part behind `::`, which stands for one group of zeros at least. -/
def readTail (head : List Group) (cs : List Char) : Option (List Group × List Char) := do
  let cs ← readGivenChar ':' cs
  let cs ← readGivenChar ':' cs
  let (tail, _, cs) := readGroups (8 - (head.length + 1)) 0 cs
  return (head ++ (List.replicate (8 - head.length - tail.length) 0 ++ tail), cs)

def readIpv6Addr (cs : List Char) : Option (List Group × List Char) :=
  let (head, ipv4, cs) := readGroups 8 0 cs
  if head.length = 8 then some (head, cs)
  else if ipv4 then none
  else readTail head cs

/-- The whole text must be the address. -/
def fromStr (cs : List Char) : Option (List Group) :=
  (readIpv6Addr cs).bind fun (gs, rest) ↦ if rest = [] then some gs else none

/-! ## The printer -/

structure Span where
  start : ℕ
  len : ℕ
  deriving DecidableEq, Repr

/-- Look for the first longest run of zeros, from the `i`-th group on. -/
def longestRun : ℕ → Span → Span → List Group → Span
  | _, longest, _, [] => longest
  | i, longest, current, g :: gs =>
      if g = 0 then
        let current : Span := ⟨if current.len = 0 then i else current.start, current.len + 1⟩
        longestRun (i + 1) (if longest.len < current.len then current else longest) current gs
      else longestRun (i + 1) longest ⟨0, 0⟩ gs

def zeroes (gs : List Group) : Span :=
  longestRun 0 ⟨0, 0⟩ ⟨0, 0⟩ gs

def fmtGroup (g : Group) : List Char :=
  Nat.toDigits 16 g.toNat

def fmtRest (gs : List Group) : List Char :=
  gs.flatMap fun g ↦ ':' :: fmtGroup g

def fmtSubslice : List Group → List Char
  | [] => []
  | first :: rest => fmtGroup first ++ fmtRest rest

def fmtOctet (b : BitVec 8) : List Char :=
  Nat.toDigits 10 b.toNat

def fmtIpv4 : Ipv4 → List Char
  | (one, two, three, four) =>
      fmtOctet one ++ '.' :: (fmtOctet two ++ '.' :: (fmtOctet three ++ '.' :: fmtOctet four))

def toIpv4Mapped : List Group → Option Ipv4
  | [a, b, c, d, e, f, g, h] =>
      if a = 0 ∧ b = 0 ∧ c = 0 ∧ d = 0 ∧ e = 0 ∧ f = 0xffff then
        some (g.extractLsb' 8 8, g.extractLsb' 0 8, h.extractLsb' 8 8, h.extractLsb' 0 8)
      else none
  | _ => none

def displayGroups (gs : List Group) : List Char :=
  if 1 < (zeroes gs).len then
    fmtSubslice (gs.take (zeroes gs).start) ++
      ':' :: ':' :: fmtSubslice (gs.drop ((zeroes gs).start + (zeroes gs).len))
  else fmtSubslice gs

def display (gs : List Group) : List Char :=
  match toIpv4Mapped gs with
  | some ipv4 => ':' :: ':' :: 'f' :: 'f' :: 'f' :: 'f' :: ':' :: fmtIpv4 ipv4
  | none => displayGroups gs

/-! ## The longest run of zeros -/

/-- The groups have zeros where `span` says. -/
def Span.IsRunOf (span : Span) (gs : List Group) : Prop :=
  ∃ before after, gs = before ++ (List.replicate span.len 0 ++ after) ∧
    before.length = span.start

/-- The groups end in the zeros of `span`. -/
def Span.IsEndOf (span : Span) (gs : List Group) : Prop :=
  ∃ before, gs = before ++ List.replicate span.len 0 ∧
    (span.len ≠ 0 → before.length = span.start)

theorem Span.IsRunOf.concat {span : Span} {gs : List Group} (h : span.IsRunOf gs) (g : Group) :
    span.IsRunOf (gs ++ [g]) := by
  obtain ⟨before, after, rfl, hstart⟩ := h
  exact ⟨before, after ++ [g], by simp, hstart⟩

theorem Span.IsEndOf.isRunOf {span : Span} {gs : List Group} (h : span.IsEndOf gs)
    (hlen : span.len ≠ 0) : span.IsRunOf gs := by
  obtain ⟨before, rfl, hstart⟩ := h
  exact ⟨before, [], by simp, hstart hlen⟩

/-- One more zero makes the run at the end longer, or starts one. -/
theorem Span.IsEndOf.concat_zero {span : Span} {gs : List Group} (h : span.IsEndOf gs) :
    Span.IsEndOf ⟨if span.len = 0 then gs.length else span.start, span.len + 1⟩ (gs ++ [0]) := by
  obtain ⟨before, rfl, hstart⟩ := h
  refine ⟨before, ?_, ?_⟩
  · rw [List.append_assoc, List.replicate_succ']
  · intro _
    simp only
    split
    · rename_i hlen
      simp [hlen]
    · rename_i hlen
      exact hstart hlen

theorem isRunOf_longestRun (done gs : List Group) {longest current : Span}
    (hlongest : longest.IsRunOf done) (hcurrent : current.IsEndOf done) :
    (longestRun done.length longest current gs).IsRunOf (done ++ gs) := by
  induction gs generalizing done longest current with
  | nil => rwa [List.append_nil]
  | cons g gs ih =>
      have hlength : (done ++ [g]).length = done.length + 1 := by simp
      rw [List.append_cons, longestRun, ← hlength]
      split
      · rename_i hg
        subst hg
        have hend := hcurrent.concat_zero
        refine ih _ ?_ hend
        by_cases hlonger : longest.len < current.len + 1
        · rw [if_pos hlonger]
          exact hend.isRunOf (Nat.succ_ne_zero _)
        · rw [if_neg hlonger]
          exact hlongest.concat 0
      · exact ih _ (hlongest.concat g) ⟨done ++ [g], by simp, by simp⟩

theorem isRunOf_zeroes (gs : List Group) : (zeroes gs).IsRunOf gs :=
  isRunOf_longestRun [] gs ⟨[], [], rfl, rfl⟩ ⟨[], rfl, fun _ ↦ rfl⟩

/-! ## The groups of a text -/

/-- Where a list of groups ends: with the text, or before `::`. -/
def AtEnd (rest : List Char) : Prop :=
  rest = [] ∨ ∃ more, rest = ':' :: ':' :: more

theorem readGroup_of_ends {cs : List Char} (h : Ends 16 cs) : readGroup cs = none := by
  rw [readGroup, readNumber_of_ends h]
  rfl

/-- An IPv4 address has a dot behind its first digits. -/
theorem readIpv4Addr_of_no_dot {cs : List Char}
    (h : (cs.dropWhile (isDigitOf 10)).head? ≠ some '.') : readIpv4Addr cs = none := by
  unfold readIpv4Addr
  simp only [readSeparator, lt_self_iff_false, if_false]
  cases hread : readNumber 10 3 false 256 cs with
  | none => simp [readOctet, hread]
  | some r =>
      obtain ⟨n, rest⟩ := r
      have hdot : readGivenChar '.' rest = none := by
        rw [← rest_of_readNumber hread] at h
        cases rest with
        | nil => rfl
        | cons c rest => exact if_neg fun hc ↦ h (congrArg some hc)
      simp [readOctet, hread, hdot]

theorem readSeparator_of_atEnd {α : Type*} {inner : List Char → Option (α × List Char)}
    (hnil : inner [] = none) (hcolon : ∀ more, inner (':' :: more) = none) (i : ℕ)
    {rest : List Char} (h : AtEnd rest) : readSeparator ':' i inner rest = none := by
  unfold readSeparator
  split
  · rcases h with rfl | ⟨more, rfl⟩
    · rfl
    · exact hcolon more
  · rcases h with rfl | ⟨more, rfl⟩
    · exact hnil
    · exact hcolon _

theorem readGroups_of_atEnd (remaining i : ℕ) {rest : List Char} (h : AtEnd rest) :
    readGroups remaining i rest = ([], false, rest) := by
  cases remaining with
  | zero => rfl
  | succ remaining =>
      have hipv4 : readEmbedded remaining i rest = none := by
        unfold readEmbedded
        split
        · refine readSeparator_of_atEnd rfl (fun more ↦ readIpv4Addr_of_no_dot ?_) i h
          rw [List.dropWhile_cons_of_neg (by simp [isDigitOf_colon])]
          rintro ⟨⟩
        · rfl
      have hgroup : readSeparator ':' i readGroup rest = none :=
        readSeparator_of_atEnd (readGroup_of_ends (ends_nil 16))
          (fun more ↦ readGroup_of_ends (ends_cons (isDigitOf_colon 16) more)) i h
      rw [readGroups, hipv4, hgroup]

theorem readGroup_fmtGroup (g : Group) {rest : List Char} (h : Ends 16 rest) :
    readGroup (fmtGroup g ++ rest) = some (g, rest) := by
  have hg : g.toNat < 16 ^ 4 := g.isLt
  rw [readGroup, fmtGroup, readNumber_toDigits (by decide) le_rfl g.isLt (by decide) hg true h]
  simp

theorem readOctet_fmtOctet (b : BitVec 8) {rest : List Char} (h : Ends 10 rest) :
    readOctet (fmtOctet b ++ rest) = some (b, rest) := by
  have hb : b.toNat < 10 ^ 3 := lt_of_lt_of_le b.isLt (by decide)
  rw [readOctet, fmtOctet,
    readNumber_toDigits (by decide) (by decide) b.isLt (by decide) hb false h]
  simp

theorem readIpv4Addr_fmtIpv4 (a : Ipv4) : readIpv4Addr (fmtIpv4 a) = some (a, []) := by
  obtain ⟨one, two, three, four⟩ := a
  have hdot (rest : List Char) : Ends 10 ('.' :: rest) := ends_cons (isDigitOf_dot 10) rest
  have hfour : readOctet (fmtOctet four) = some (four, []) := by
    simpa using readOctet_fmtOctet four (ends_nil 10)
  simp [readIpv4Addr, fmtIpv4, readSeparator, readGivenChar, readOctet_fmtOctet _ (hdot _), hfour]

/-- The text goes on with a colon, if at all. -/
def NextColon (rest : List Char) : Prop :=
  ∀ c ∈ rest.head?, c = ':'

theorem NextColon.ends {rest : List Char} (h : NextColon rest) (radix : ℕ) : Ends radix rest := by
  intro c hc
  rw [h c hc]
  exact isDigitOf_colon radix

theorem nextColon_fmtRest (gs : List Group) {rest : List Char} (h : AtEnd rest) :
    NextColon (fmtRest gs ++ rest) := by
  cases gs with
  | nil =>
      rcases h with rfl | ⟨more, rfl⟩
      · rintro c ⟨⟩
      · rintro c ⟨⟩
        rfl
  | cons g gs =>
      rintro c ⟨⟩
      rfl

/-- Behind the decimal digits of a hexadecimal number there is no dot. -/
theorem head?_dropWhile_ne_dot {ds rest : List Char} (hds : ∀ c ∈ ds, isDigitOf 16 c = true)
    (h : NextColon rest) : ((ds ++ rest).dropWhile (isDigitOf 10)).head? ≠ some '.' := by
  induction ds with
  | nil =>
      cases rest with
      | nil => rintro ⟨⟩
      | cons c rest =>
          rw [h c rfl, List.nil_append, List.dropWhile_cons_of_neg (by simp [isDigitOf_colon])]
          rintro ⟨⟩
  | cons c ds ih =>
      rw [List.cons_append, List.dropWhile_cons]
      split
      · exact ih fun d hd ↦ hds d (List.mem_cons_of_mem _ hd)
      · rintro ⟨⟩
        exact absurd (hds _ List.mem_cons_self) (by decide)

/-- A group in hexadecimal is not taken for the beginning of an IPv4 address. -/
theorem readIpv4Addr_fmtGroup (g : Group) {rest : List Char} (h : NextColon rest) :
    readIpv4Addr (fmtGroup g ++ rest) = none :=
  readIpv4Addr_of_no_dot (head?_dropWhile_ne_dot
    (fun _ hc ↦ isDigitOf_of_mem_toDigits (by decide) le_rfl hc) h)

/-- The reader takes one printed group and goes on behind it. -/
theorem readGroups_fmtGroup (remaining i : ℕ) (g : Group) {cs rest : List Char}
    (hrest : NextColon rest)
    (hcs : ∀ {α : Type} (inner : List Char → Option (α × List Char)),
      readSeparator ':' i inner cs = inner (fmtGroup g ++ rest)) :
    readGroups (remaining + 1) i cs =
      (g :: (readGroups remaining (i + 1) rest).1, (readGroups remaining (i + 1) rest).2) := by
  have hipv4 : readEmbedded remaining i cs = none := by
    unfold readEmbedded
    split
    · rw [hcs, readIpv4Addr_fmtGroup g hrest]
    · rfl
  rw [readGroups, hipv4, hcs, readGroup_fmtGroup g (hrest.ends 16)]

theorem readGroups_fmtRest {gs : List Group} {remaining i : ℕ} (hi : 0 < i)
    (hlen : gs.length ≤ remaining) {rest : List Char} (hrest : AtEnd rest) :
    readGroups remaining i (fmtRest gs ++ rest) = (gs, false, rest) := by
  induction gs generalizing remaining i with
  | nil => exact readGroups_of_atEnd remaining i hrest
  | cons g gs ih =>
      obtain ⟨remaining, rfl⟩ := Nat.exists_eq_add_of_lt (Nat.zero_lt_of_lt hlen)
      rw [Nat.zero_add]
      rw [List.length_cons] at hlen
      rw [readGroups_fmtGroup remaining i g (nextColon_fmtRest gs hrest),
        ih (Nat.succ_pos i) (by omega)]
      intro α inner
      simp [readSeparator, hi, fmtRest, readGivenChar]

theorem readGroups_fmtSubslice {gs : List Group} {remaining : ℕ} (hlen : gs.length ≤ remaining)
    {rest : List Char} (hrest : AtEnd rest) :
    readGroups remaining 0 (fmtSubslice gs ++ rest) = (gs, false, rest) := by
  cases gs with
  | nil => exact readGroups_of_atEnd remaining 0 hrest
  | cons g gs =>
      obtain ⟨remaining, rfl⟩ := Nat.exists_eq_add_of_lt (Nat.zero_lt_of_lt hlen)
      rw [Nat.zero_add]
      rw [List.length_cons] at hlen
      rw [readGroups_fmtGroup remaining 0 g (nextColon_fmtRest gs hrest),
        readGroups_fmtRest Nat.zero_lt_one (by omega) hrest]
      intro α inner
      simp [readSeparator, fmtSubslice]

/-! ## The round trip -/

theorem readTail_fmtSubslice {head tail : List Group} {n : ℕ} (hn : 1 ≤ n)
    (hlen : head.length + n + tail.length = 8) :
    readTail head (':' :: ':' :: fmtSubslice tail) =
      some (head ++ (List.replicate n 0 ++ tail), []) := by
  have hroom : tail.length ≤ 8 - (head.length + 1) := by omega
  have htail : readGroups (8 - (head.length + 1)) 0 (fmtSubslice tail) = (tail, false, []) := by
    simpa using readGroups_fmtSubslice hroom (.inl rfl)
  have hcolons : readGivenChar ':' (':' :: ':' :: fmtSubslice tail) =
      some (':' :: fmtSubslice tail) := rfl
  have hcolon : readGivenChar ':' (':' :: fmtSubslice tail) = some (fmtSubslice tail) := rfl
  have hzeros : 8 - head.length - tail.length = n := by omega
  simp only [readTail, hcolons, hcolon, htail, hzeros, Option.bind_eq_bind, Option.bind_some,
    Option.pure_def]

/-- The printed form with `::` for the zeros between `head` and `tail`. -/
theorem fromStr_compressed {head tail : List Group} {n : ℕ} (hn : 1 ≤ n)
    (hlen : head.length + n + tail.length = 8) :
    fromStr (fmtSubslice head ++ ':' :: ':' :: fmtSubslice tail) =
      some (head ++ (List.replicate n 0 ++ tail)) := by
  have hlt : head.length < 8 := by omega
  have hhead := readGroups_fmtSubslice hlt.le (.inr ⟨fmtSubslice tail, rfl⟩)
  rw [fromStr, readIpv6Addr, hhead]
  simp [hlt.ne, readTail_fmtSubslice hn hlen]

theorem fromStr_full {gs : List Group} (hlen : gs.length = 8) :
    fromStr (fmtSubslice gs) = some gs := by
  have hread : readGroups 8 0 (fmtSubslice gs) = (gs, false, []) := by
    simpa using readGroups_fmtSubslice hlen.le (.inl rfl)
  rw [fromStr, readIpv6Addr, hread]
  simp [hlen]

theorem fromStr_displayGroups {gs : List Group} (hlen : gs.length = 8) :
    fromStr (displayGroups gs) = some gs := by
  unfold displayGroups
  split
  · rename_i hrun
    obtain ⟨before, after, hgs, hstart⟩ := isRunOf_zeroes gs
    have hlen' : before.length + (zeroes gs).len + after.length = 8 := by
      rw [← hlen, congrArg List.length hgs]
      simp [Nat.add_assoc]
    have htake : gs.take (zeroes gs).start = before := by
      rw [← hstart, congrArg (List.take before.length) hgs, List.take_left]
    have hdrop : gs.drop ((zeroes gs).start + (zeroes gs).len) = after := by
      rw [← List.drop_drop, ← hstart, congrArg (List.drop before.length) hgs, List.drop_left,
        List.drop_left' List.length_replicate]
    rw [htake, hdrop, fromStr_compressed (by omega) hlen', ← hgs]
  · exact fromStr_full hlen

theorem fromStr_mapped (ipv4 : Ipv4) :
    fromStr (':' :: ':' :: 'f' :: 'f' :: 'f' :: 'f' :: ':' :: fmtIpv4 ipv4) =
      some [0, 0, 0, 0, 0, 0xffff, ipv4.1 ++ ipv4.2.1, ipv4.2.2.1 ++ ipv4.2.2.2] := by
  have hhead := readGroups_of_atEnd 8 0
    (.inr ⟨'f' :: 'f' :: 'f' :: 'f' :: ':' :: fmtIpv4 ipv4, rfl⟩)
  have htail : readGroups 7 0 ('f' :: 'f' :: 'f' :: 'f' :: ':' :: fmtIpv4 ipv4) =
      ([0xffff, ipv4.1 ++ ipv4.2.1, ipv4.2.2.1 ++ ipv4.2.2.2], true, []) := by
    have hcolon : NextColon (':' :: fmtIpv4 ipv4) := by
      rintro c ⟨⟩
      rfl
    have htext : 'f' :: 'f' :: 'f' :: 'f' :: ':' :: fmtIpv4 ipv4 =
        fmtGroup 0xffff ++ ':' :: fmtIpv4 ipv4 := rfl
    rw [htext, readGroups_fmtGroup 6 0 0xffff hcolon fun inner ↦ rfl]
    simp [readGroups, readEmbedded, readSeparator, readGivenChar, readIpv4Addr_fmtIpv4]
  rw [fromStr, readIpv6Addr, hhead]
  simp [readTail, readGivenChar, htail]

theorem toIpv4Mapped_eq_some {gs : List Group} {ipv4 : Ipv4} (h : toIpv4Mapped gs = some ipv4) :
    gs = [0, 0, 0, 0, 0, 0xffff, ipv4.1 ++ ipv4.2.1, ipv4.2.2.1 ++ ipv4.2.2.2] := by
  unfold toIpv4Mapped at h
  split at h
  · split at h
    · rename_i hzero
      obtain ⟨rfl, rfl, rfl, rfl, rfl, rfl⟩ := hzero
      cases h
      have hbytes (g : Group) : g.extractLsb' 8 8 ++ g.extractLsb' 0 8 = g :=
        BitVec.extractLsb'_append_extractLsb'
      simp [hbytes]
    · cases h
  · cases h

/-- Every address is read back from its printed form. -/
theorem fromStr_display {gs : List Group} (hlen : gs.length = 8) :
    fromStr (display gs) = some gs := by
  unfold display
  split
  · rename_i hmapped
    rw [fromStr_mapped, ← toIpv4Mapped_eq_some hmapped]
  · exact fromStr_displayGroups hlen

/-! ## Groups and bytes -/

def segments (a : Vector (BitVec 8) 16) : List Group :=
  (List.range 8).map fun i ↦ a[2 * i]! ++ a[2 * i + 1]!

def octets (gs : List Group) : Vector (BitVec 8) 16 :=
  Vector.ofFn fun i ↦
    if i.val % 2 = 0 then gs[i.val / 2]!.extractLsb' 8 8 else gs[i.val / 2]!.extractLsb' 0 8

theorem length_segments (a : Vector (BitVec 8) 16) : (segments a).length = 8 := by
  simp [segments]

theorem octets_segments (a : Vector (BitVec 8) 16) : octets (segments a) = a := by
  have hhigh (x y : BitVec 8) : (x ++ y).extractLsb' 8 8 = x := by
    simpa using BitVec.extractLsb'_append_eq_left
  have hlow (x y : BitVec 8) : (x ++ y).extractLsb' 0 8 = y := by
    simpa using BitVec.extractLsb'_append_eq_right
  ext i hi
  have hget : (segments a)[i / 2]! = a[2 * (i / 2)]! ++ a[2 * (i / 2) + 1]! := by
    rw [getElem!_pos _ _ (by rw [length_segments]; omega)]
    simp [segments]
  rw [octets, Vector.getElem_ofFn, hget]
  simp only
  split
  · rename_i heven
    have hi₂ : 2 * (i / 2) = i := by omega
    rw [hhigh, hi₂, getElem!_pos a i hi]
  · rename_i hodd
    have hi₂ : 2 * (i / 2) + 1 = i := by omega
    rw [hlow, hi₂, getElem!_pos a i hi]

/-! ## The characters of a printed address -/

def isAddrChar (c : Char) : Prop :=
  isDigitOf 16 c = true ∨ c = ':' ∨ c = '.'

theorem isAddrChar_of_mem_fmtSubslice {gs : List Group} {c : Char} (h : c ∈ fmtSubslice gs) :
    isAddrChar c := by
  have hgroup {g : Group} (hc : c ∈ fmtGroup g) : isAddrChar c :=
    .inl (isDigitOf_of_mem_toDigits (by decide) le_rfl hc)
  cases gs with
  | nil => cases h
  | cons first gs =>
      rcases List.mem_append.mp h with hc | hc
      · exact hgroup hc
      · obtain ⟨g, -, hc⟩ := List.mem_flatMap.mp hc
        rcases List.mem_cons.mp hc with rfl | hc
        · exact .inr (.inl rfl)
        · exact hgroup hc

theorem isAddrChar_of_mem_fmtIpv4 {ipv4 : Ipv4} {c : Char} (h : c ∈ fmtIpv4 ipv4) :
    isAddrChar c := by
  have hoctet {b : BitVec 8} (hc : c ∈ fmtOctet b) : isAddrChar c := by
    obtain ⟨d, ds, htext, hlt, -, -⟩ := exists_digits (b := 10) (by decide) b.toNat
    rw [fmtOctet, htext] at hc
    obtain ⟨e, he, rfl⟩ := List.mem_map.mp hc
    have hdigit := toDigit_digitChar (lt_trans (hlt e he) (by decide : 10 < 16)) le_rfl
    exact .inl (by rw [isDigitOf, hdigit]; rfl)
  simp only [fmtIpv4, List.mem_append, List.mem_cons] at h
  rcases h with hc | rfl | hc | rfl | hc | rfl | hc
  · exact hoctet hc
  · exact .inr (.inr rfl)
  · exact hoctet hc
  · exact .inr (.inr rfl)
  · exact hoctet hc
  · exact .inr (.inr rfl)
  · exact hoctet hc

theorem isAddrChar_of_mem_display {gs : List Group} {c : Char} (h : c ∈ display gs) :
    isAddrChar c := by
  have hf : isAddrChar 'f' := .inl (by decide)
  have hcolon : isAddrChar ':' := .inr (.inl rfl)
  unfold display at h
  split at h
  · simp only [List.mem_cons] at h
    rcases h with rfl | rfl | rfl | rfl | rfl | rfl | rfl | hc
    · exact hcolon
    · exact hcolon
    · exact hf
    · exact hf
    · exact hf
    · exact hf
    · exact hcolon
    · exact isAddrChar_of_mem_fmtIpv4 hc
  · unfold displayGroups at h
    split at h
    · simp only [List.mem_append, List.mem_cons] at h
      rcases h with hc | rfl | rfl | hc
      · exact isAddrChar_of_mem_fmtSubslice hc
      · exact hcolon
      · exact hcolon
      · exact isAddrChar_of_mem_fmtSubslice hc
    · exact isAddrChar_of_mem_fmtSubslice h

end Ipv6Text
