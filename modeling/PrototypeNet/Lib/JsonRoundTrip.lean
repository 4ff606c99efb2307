import PrototypeNet.Lib.Json

/-!
# Printed JSON is read back

The machine of the reader is run on printed texts, part by part.  Reading what
was printed gives the value back, and reading a printed object that was cut
off fails: the machine is still inside the object when the text ends.
-/

namespace Json

open Runs Text

/-! ## Running the machine on a printed text -/

theorem deliver_arr (v : Value) (elems : List Value) (stack : List Frame) :
    deliver v (.arr elems :: stack) = some ⟨.afterElem, .arr (elems ++ [v]) :: stack⟩ := rfl

theorem deliver_field (v : Value) (fields : List (List Char × Value)) (name : List Char)
    (stack : List Frame) :
    deliver v (.field fields name :: stack) =
      some ⟨.afterField, .obj (fields ++ [(name, v)]) :: stack⟩ := rfl

/-- Between tokens the machine skips space. -/
def Mode.skipsSpace : Mode → Bool
  | .inName _ | .inString _ | .inNumber _ _ | .inWord _ _ => false
  | _ => true

theorem step_space {r : Reader} {c : Char} (h : r.mode.skipsSpace = true)
    (hc : isSpace c = true) : step r c = some r := by
  obtain ⟨mode, stack⟩ := r
  cases mode <;> first | exact if_pos hc | cases h

theorem play_spaces {r : Reader} (h : r.mode.skipsSpace = true) {cs : List Char}
    (hcs : ∀ c ∈ cs, isSpace c = true) : play step r cs = some r := by
  induction cs with
  | nil => rfl
  | cons c cs ih =>
      rw [play, step_space h (hcs c List.mem_cons_self)]
      exact ih fun d hd ↦ hcs d (List.mem_cons_of_mem _ hd)

theorem isSpace_of_mem_newline {depth : ℕ} {c : Char} (h : c ∈ newline depth) :
    isSpace c = true := by
  rcases List.mem_cons.mp h with rfl | h
  · rfl
  · rw [List.eq_of_mem_replicate h]
    rfl

theorem play_newline {r : Reader} (h : r.mode.skipsSpace = true) (depth : ℕ)
    (cs : List Char) : play step r (newline depth ++ cs) = play step r cs := by
  rw [play_append, play_spaces h fun c ↦ isSpace_of_mem_newline, Option.bind_some]

section Strings

/-- A mode in which the machine reads a string. -/
def ReadsString (wrap : Unfinished → Mode) (stack : List Frame) : Prop :=
  ∀ p c, ¬ (p.escape = .none ∧ c = '"') →
    step ⟨wrap p, stack⟩ c = (p.step c).map fun p ↦ ⟨wrap p, stack⟩

theorem hexDigit_digitChar {d : ℕ} (h : d < 16) : hexDigit d.digitChar = some d := by
  interval_cases d <;> rfl

theorem readsString_inName (stack : List Frame) : ReadsString .inName stack :=
  fun _ _ h ↦ if_neg h

theorem readsString_inString (stack : List Frame) : ReadsString .inString stack :=
  fun _ _ h ↦ if_neg h

/-- Between quotes, the text `raw` is read as `s`. -/
def ReadsAs (raw s : List Char) : Prop :=
  ∀ wrap stack read, ReadsString wrap stack →
    play step ⟨wrap ⟨.none, none, read⟩, stack⟩ raw =
      some ⟨wrap ⟨.none, none, read ++ s⟩, stack⟩

/-- A text escaped character by character is read as the text. -/
theorem readsAs_flatMap {esc : Char → List Char} {s : List Char}
    (hesc : ∀ c ∈ s, ReadsAs (esc c) [c]) : ReadsAs (s.flatMap esc) s := by
  intro wrap stack read h
  induction s generalizing read with
  | nil => simp [play]
  | cons c s ih =>
      rw [List.flatMap_cons, play_append, hesc c List.mem_cons_self wrap stack read h,
        Option.bind_some, ih fun d hd ↦ hesc d (List.mem_cons_of_mem _ hd)]
      simp

theorem readsAs_unicodeEscape {c : Char} (hc : c.toNat < 0xD800) :
    ReadsAs (unicodeEscape c.toNat) [c] := by
  intro wrap stack read h
  have hdigit (n : ℕ) : hexDigit (n % 16).digitChar = some (n % 16) :=
    hexDigit_digitChar (Nat.mod_lt _ (by decide))
  have hvalue : (((c.toNat / 4096 % 16 * 16 + c.toNat / 256 % 16) * 16 + c.toNat / 16 % 16) * 16 +
      c.toNat % 16) = c.toNat := by
    omega
  have hunit : (⟨.hex 1 ((c.toNat / 4096 % 16 * 16 + c.toNat / 256 % 16) * 16 +
      c.toNat / 16 % 16), none, read⟩ : Unfinished).pushUnit c.toNat =
      ⟨.none, none, read ++ [c]⟩ := by
    have hlow : ¬ (0xDC00 ≤ c.toNat ∧ c.toNat < 0xE000) := by omega
    have hhigh : ¬ (0xD800 ≤ c.toNat ∧ c.toNat < 0xDC00) := by omega
    simp [Unfinished.pushUnit, hlow, hhigh, Unfinished.push, Unfinished.text]
  simp [unicodeEscape, play, h _ _, Unfinished.step, hdigit, hvalue, hunit]

theorem readsAs_simpleEscape {c d : Char} (h : simpleEscape c = some d) :
    ReadsAs ['\\', c] [d] := by
  intro wrap stack read hwrap
  have hu : c ≠ 'u' := by
    rintro rfl
    cases h
  simp [play, hwrap _ _, Unfinished.step, hu, h, Unfinished.push, Unfinished.text]

/-- A character that may stand in a string as it is. -/
def isPlain (c : Char) : Bool :=
  decide (c ≠ '"' ∧ c ≠ '\\' ∧ 0x20 ≤ c.toNat)

theorem isPlain_iff {c : Char} : isPlain c = true ↔ c ≠ '"' ∧ c ≠ '\\' ∧ 0x20 ≤ c.toNat :=
  decide_eq_true_iff

theorem readsAs_plain {c : Char} (h : isPlain c = true) : ReadsAs [c] [c] := by
  intro wrap stack read hwrap
  obtain ⟨hquote, hescape, hcontrol⟩ := isPlain_iff.mp h
  simp [play, hwrap _ _, Unfinished.step, hquote, hescape, hcontrol.not_gt, Unfinished.push,
    Unfinished.text]

theorem readsAs_escapeChar (c : Char) : ReadsAs (escapeChar c) [c] := by
  unfold escapeChar
  split_ifs with hquote hb hf hn hr ht hunicode
  · rcases hquote with rfl | rfl <;> exact readsAs_simpleEscape rfl
  · exact hb ▸ readsAs_simpleEscape rfl
  · exact hf ▸ readsAs_simpleEscape rfl
  · exact hn ▸ readsAs_simpleEscape rfl
  · exact hr ▸ readsAs_simpleEscape rfl
  · exact ht ▸ readsAs_simpleEscape rfl
  · apply readsAs_unicodeEscape
    rcases hunicode with hlt | rfl | rfl | rfl | hc | hc
    · omega
    · decide
    · decide
    · decide
    · omega
    · omega
  · rw [not_or] at hquote hunicode
    exact readsAs_plain (isPlain_iff.mpr ⟨hquote.1, hquote.2, not_lt.mp hunicode.1⟩)

theorem readsAs_escaped (s : List Char) : ReadsAs (s.flatMap escapeChar) s :=
  readsAs_flatMap fun c _ ↦ readsAs_escapeChar c

/-- A printed name is read up to where its value begins. -/
theorem play_name {mode : Mode} {fields : List (List Char × Value)} {stack : List Frame}
    (hmode : mode = .name ∨ mode = .nameOrClose) (name cs : List Char) :
    play step ⟨mode, .obj fields :: stack⟩ (printString name ++ ':' :: ' ' :: cs) =
      play step ⟨.value, .field fields name :: stack⟩ cs := by
  have hbegin : step ⟨mode, .obj fields :: stack⟩ '"' =
      some ⟨.inName .empty, .obj fields :: stack⟩ := by
    rcases hmode with rfl | rfl <;> rfl
  have hname := readsAs_escaped name .inName (.obj fields :: stack) [] (readsString_inName _)
  rw [printString, List.cons_append, play, hbegin]
  simp only [Unfinished.empty]
  rw [List.append_assoc, play_append, hname, Option.bind_some]
  rfl

theorem play_quoted {raw s : List Char} (h : ReadsAs raw s) (stack : List Frame) :
    play step ⟨.value, stack⟩ ('"' :: (raw ++ ['"'])) = deliver (.str s) stack := by
  have hbegin : step ⟨.value, stack⟩ '"' = some ⟨.inString .empty, stack⟩ := rfl
  have hraw := h .inString stack [] (readsString_inString _)
  rw [play, hbegin]
  simp only [Unfinished.empty]
  rw [play_append, hraw, Option.bind_some, List.nil_append]
  cases hd : deliver (.str s) stack <;> simp [play, step, Unfinished.text, hd]

end Strings

/-- A value without numbers, nested at most `n` deep.  A number is left out
because only the character behind it ends it. -/
inductive Printable : ℕ → Value → Prop
  | null (n : ℕ) : Printable n .null
  | bool (n : ℕ) (b : Bool) : Printable n (.bool b)
  | str (n : ℕ) (s : List Char) : Printable n (.str s)
  | arr {n : ℕ} {elems : List Value} (h : ∀ v ∈ elems, Printable n v) :
      Printable (n + 1) (.arr elems)
  | obj {n : ℕ} {fields : List (List Char × Value)} (h : ∀ f ∈ fields, Printable n f.2) :
      Printable (n + 1) (.obj fields)

/-- Reading the printed value gives the value, wherever one is expected. -/
def ReadsBack (n : ℕ) (v : Value) : Prop :=
  ∀ depth stack, stack.length + n ≤ maxNestingDepth →
    play step ⟨.value, stack⟩ (print depth v) = deliver v stack

/-- No printed value begins with a bracket that closes. -/
theorem play_valueOrClose (depth : ℕ) (v : Value) (stack : List Frame) (cs : List Char)
    (hnum : ∀ text, v ≠ .num text) :
    play step ⟨.valueOrClose, stack⟩ (print depth v ++ cs) =
      play step ⟨.value, stack⟩ (print depth v ++ cs) := by
  cases v with
  | null => rfl
  | bool b => cases b <;> rfl
  | num text => exact absurd rfl (hnum text)
  | str s => rfl
  | arr elems => cases elems <;> rfl
  | obj fields => obtain _ | ⟨⟨name, v⟩, fields⟩ := fields <;> rfl

theorem Printable.ne_num {n : ℕ} {v : Value} (h : Printable n v) (text : List Char) :
    v ≠ .num text := by
  cases h <;> nofun

section Nested

variable {n : ℕ} {stack : List Frame}

theorem play_printElems (hroom : stack.length + (n + 1) ≤ maxNestingDepth) (depth : ℕ)
    {elems : List Value} (h : ∀ v ∈ elems, ReadsBack n v) (before : List Value) :
    play step ⟨.afterElem, .arr before :: stack⟩ (printElems depth elems) =
      deliver (.arr (before ++ elems)) stack := by
  induction elems generalizing before with
  | nil =>
      rw [printElems, play_newline rfl, List.append_nil]
      cases hd : deliver (.arr before) stack <;>
        simp [play, step, afterValue, isSpace, closeArr, hd]
  | cons v elems ih =>
      have hcomma : step ⟨.afterElem, .arr before :: stack⟩ ',' =
          some ⟨.value, .arr before :: stack⟩ := rfl
      have hv := h v List.mem_cons_self (depth + 1) (.arr before :: stack)
        (by rw [List.length_cons]; omega)
      rw [printElems, play, hcomma]
      simp only
      rw [play_newline rfl, play_append, hv, deliver_arr, Option.bind_some,
        ih fun w hw ↦ h w (List.mem_cons_of_mem _ hw), List.append_assoc, List.singleton_append]

theorem play_printFields (hroom : stack.length + (n + 1) ≤ maxNestingDepth) (depth : ℕ)
    {fields : List (List Char × Value)} (h : ∀ f ∈ fields, ReadsBack n f.2)
    (before : List (List Char × Value)) :
    play step ⟨.afterField, .obj before :: stack⟩ (printFields depth fields) =
      deliver (.obj (before ++ fields)) stack := by
  induction fields generalizing before with
  | nil =>
      rw [printFields, play_newline rfl, List.append_nil]
      cases hd : deliver (.obj before) stack <;>
        simp [play, step, afterValue, isSpace, closeObj, hd]
  | cons f fields ih =>
      obtain ⟨name, v⟩ := f
      have hcomma : step ⟨.afterField, .obj before :: stack⟩ ',' =
          some ⟨.name, .obj before :: stack⟩ := rfl
      have hv := h (name, v) List.mem_cons_self (depth + 1) (.field before name :: stack)
        (by rw [List.length_cons]; omega)
      rw [printFields, play, hcomma]
      simp only
      rw [play_newline rfl, play_name (.inl rfl), play_append, hv, deliver_field,
        Option.bind_some, ih fun w hw ↦ h w (List.mem_cons_of_mem _ hw), List.append_assoc,
        List.singleton_append]

end Nested

theorem Printable.readsBack {n : ℕ} {v : Value} (h : Printable n v) : ReadsBack n v := by
  induction h with
  | null n =>
      intro depth stack _
      cases hd : deliver .null stack <;> simp [print, play, step, isSpace, beginValue, hd]
  | bool n b =>
      intro depth stack _
      cases b with
      | true =>
          cases hd : deliver (.bool true) stack <;>
            simp [print, play, step, isSpace, beginValue, hd]
      | false =>
          cases hd : deliver (.bool false) stack <;>
            simp [print, play, step, isSpace, beginValue, hd]
  | str n s =>
      intro depth stack _
      exact play_quoted (readsAs_escaped s) stack
  | @arr n elems helems ih =>
      intro depth stack hroom
      have hlt : stack.length < maxNestingDepth := by omega
      have hopen : step ⟨.value, stack⟩ '[' = some ⟨.valueOrClose, .arr [] :: stack⟩ :=
        if_pos hlt
      cases elems with
      | nil =>
          rw [print, play, hopen]
          cases hd : deliver (.arr []) stack <;> simp [play, step, isSpace, closeArr, hd]
      | cons v elems =>
          have hv := ih v List.mem_cons_self (depth + 1) (.arr [] :: stack)
            (by rw [List.length_cons]; omega)
          rw [print, play, hopen]
          simp only
          rw [play_newline rfl,
            play_valueOrClose _ _ _ _ (helems v List.mem_cons_self).ne_num, play_append, hv,
            deliver_arr, Option.bind_some]
          exact play_printElems hroom depth (fun w hw ↦ ih w (List.mem_cons_of_mem _ hw)) [v]
  | @obj n fields hfields ih =>
      intro depth stack hroom
      have hlt : stack.length < maxNestingDepth := by omega
      have hopen : step ⟨.value, stack⟩ '\x7b' = some ⟨.nameOrClose, .obj [] :: stack⟩ :=
        if_pos hlt
      obtain _ | ⟨⟨name, v⟩, fields⟩ := fields
      · rw [print, play, hopen]
        cases hd : deliver (.obj []) stack <;> simp [play, step, isSpace, closeObj, hd]
      · have hv := ih (name, v) List.mem_cons_self (depth + 1) (.field [] name :: stack)
          (by rw [List.length_cons]; omega)
        rw [print, play, hopen]
        simp only
        rw [play_newline rfl, play_name (.inr rfl), play_append, hv, deliver_field,
          Option.bind_some]
        exact play_printFields hroom depth (fun w hw ↦ ih w (List.mem_cons_of_mem _ hw))
          [(name, v)]

theorem parse_print {n : ℕ} {v : Value} (h : Printable n v) (hn : n ≤ maxNestingDepth)
    (depth : ℕ) : parse (print depth v) = .ok v := by
  have hplay := h.readsBack depth [] (by rwa [List.length_nil, Nat.zero_add])
  rw [parse, Reader.init, hplay]
  rfl

/-! ## What a step can do -/

/-- A mode that the machine enters when something begins: a string begins
empty, and what a word stands for is no string. -/
def Mode.Begins : Mode → Prop
  | .inString p => p = .empty
  | .inWord left v => '"' ∉ left ∧ ∀ s, v ≠ .str s
  | .top _ => False
  | _ => True

/-- The value of a frame that is closed. -/
def Frame.closed : Frame → Option Value
  | .arr elems => some (.arr elems)
  | .obj fields => some (.obj fields)
  | .field _ _ => none

/-- What a character can do to the machine, a further character of a string
apart. -/
inductive Move : Reader → Reader → Prop
  | stays (r : Reader) : Move r r
  | turns {m m' : Mode} (stack : List Frame) (hm : ∀ v, m ≠ .top v) (hm' : m'.Begins) :
      Move ⟨m, stack⟩ ⟨m', stack⟩
  | opens {m m' : Mode} (f : Frame) (stack : List Frame) (hm : ∀ v, m ≠ .top v)
      (hm' : m'.Begins) : Move ⟨m, stack⟩ ⟨m', f :: stack⟩
  | named {m : Mode} (fields : List (List Char × Value)) (name : List Char)
      (stack : List Frame) :
      Move ⟨m, .obj fields :: stack⟩ ⟨.colon, .field fields name :: stack⟩
  | spells {w : Char} {left : List Char} {v : Value} (stack : List Frame) :
      Move ⟨.inWord (w :: left) v, stack⟩ ⟨.inWord left v, stack⟩
  | word {left : List Char} {v : Value} {stack : List Frame} {r : Reader}
      (h : deliver v stack = some r) : Move ⟨.inWord left v, stack⟩ r
  | number {s : NumState} {read : List Char} {stack : List Frame} {r : Reader}
      (h : deliver (.num read) stack = some r) : Move ⟨.inNumber s read, stack⟩ r
  | string {p : Unfinished} {stack : List Frame} {r : Reader}
      (h : deliver (.str p.text) stack = some r) : Move ⟨.inString p, stack⟩ r
  | closes {m : Mode} {f : Frame} {v : Value} {stack : List Frame} {r : Reader}
      (hf : f.closed = some v) (h : deliver v stack = some r) : Move ⟨m, f :: stack⟩ r

theorem move_of_closeArr {m : Mode} {stack : List Frame} {r : Reader}
    (h : closeArr stack = some r) : Move ⟨m, stack⟩ r := by
  unfold closeArr at h
  split at h
  · exact .closes rfl h
  · cases h

theorem move_of_closeObj {m : Mode} {stack : List Frame} {r : Reader}
    (h : closeObj stack = some r) : Move ⟨m, stack⟩ r := by
  unfold closeObj at h
  split at h
  · exact .closes rfl h
  · cases h

theorem move_of_nameRead {m : Mode} {name : List Char} {stack : List Frame} {r : Reader}
    (h : nameRead name stack = some r) : Move ⟨m, stack⟩ r := by
  unfold nameRead at h
  split at h
  · cases h
    exact .named _ _ _
  · cases h

theorem move_of_openFrame {m m' : Mode} {f : Frame} {stack : List Frame} {r : Reader}
    (h : openFrame f m' stack = some r) (hm : ∀ v, m ≠ .top v) (hm' : m'.Begins) :
    Move ⟨m, stack⟩ r := by
  unfold openFrame at h
  split_ifs at h
  cases h
  exact .opens f stack hm hm'

theorem move_of_beginValue {m : Mode} {stack : List Frame} {r : Reader} {c : Char}
    (hm : ∀ v, m ≠ .top v) (h : beginValue c stack = some r) : Move ⟨m, stack⟩ r := by
  unfold beginValue at h
  split_ifs at h
  · cases h
    exact .turns stack hm rfl
  · exact move_of_openFrame h hm trivial
  · exact move_of_openFrame h hm trivial
  · cases h
    exact .turns stack hm ⟨by decide, nofun⟩
  · cases h
    exact .turns stack hm ⟨by decide, nofun⟩
  · cases h
    exact .turns stack hm ⟨by decide, nofun⟩
  · obtain ⟨s, -, rfl⟩ := Option.map_eq_some_iff.mp h
    exact .turns stack hm trivial

theorem move_of_afterValue {r r' : Reader} {c : Char} (h : afterValue r c = some r') :
    Move r r' := by
  obtain ⟨mode, stack⟩ := r
  by_cases hspace : isSpace c = true
  · rw [afterValue, if_pos hspace] at h
    cases h
    exact .stays _
  · rw [afterValue, if_neg hspace] at h
    cases mode with
    | afterElem =>
        simp only at h
        split_ifs at h
        · cases h
          exact .turns stack nofun trivial
        · exact move_of_closeArr h
    | afterField =>
        simp only at h
        split_ifs at h
        · cases h
          exact .turns stack nofun trivial
        · exact move_of_closeObj h
    | _ => cases h

/-- A step goes on with a string, or it is a move; behind a number there are
two, since its end is seen only then. -/
theorem step_moves {r r' : Reader} {c : Char} (h : step r c = some r') :
    (∃ p p', r.mode = .inString p ∧ p.step c = some p' ∧ r' = ⟨.inString p', r.stack⟩) ∨
      ∃ r₁, Move r r₁ ∧ Move r₁ r' := by
  suffices hmove : (∃ p p', r.mode = .inString p ∧ p.step c = some p' ∧
      r' = ⟨.inString p', r.stack⟩) ∨ Move r r' ∨ ∃ r₁, Move r r₁ ∧ Move r₁ r' by
    rcases hmove with hstring | hmove | hmoves
    · exact .inl hstring
    · exact .inr ⟨r', hmove, .stays r'⟩
    · exact .inr hmoves
  obtain ⟨mode, stack⟩ := r
  cases mode with
  | value =>
      simp only [step] at h
      split_ifs at h
      · cases h
        exact .inr (.inl (.stays _))
      · exact .inr (.inl (move_of_beginValue nofun h))
  | valueOrClose =>
      simp only [step] at h
      split_ifs at h
      · cases h
        exact .inr (.inl (.stays _))
      · exact .inr (.inl (move_of_closeArr h))
      · exact .inr (.inl (move_of_beginValue nofun h))
  | name =>
      simp only [step] at h
      split_ifs at h <;> cases h
      · exact .inr (.inl (.stays _))
      · exact .inr (.inl (.turns stack nofun trivial))
  | nameOrClose =>
      simp only [step] at h
      split_ifs at h
      · cases h
        exact .inr (.inl (.stays _))
      · exact .inr (.inl (move_of_closeObj h))
      · cases h
        exact .inr (.inl (.turns stack nofun trivial))
  | inName p =>
      simp only [step] at h
      split_ifs at h
      · exact .inr (.inl (move_of_nameRead h))
      · obtain ⟨p', -, rfl⟩ := Option.map_eq_some_iff.mp h
        exact .inr (.inl (.turns stack nofun trivial))
  | colon =>
      simp only [step] at h
      split_ifs at h <;> cases h
      · exact .inr (.inl (.stays _))
      · exact .inr (.inl (.turns stack nofun trivial))
  | inString p =>
      simp only [step] at h
      split_ifs at h
      · exact .inr (.inl (.string h))
      · obtain ⟨p', hp', rfl⟩ := Option.map_eq_some_iff.mp h
        exact .inl ⟨p, p', rfl, hp', rfl⟩
  | inNumber s read =>
      simp only [step] at h
      split at h
      · cases h
        exact .inr (.inl (.turns stack nofun trivial))
      · split_ifs at h
        obtain ⟨r₁, hdeliver, hafter⟩ := Option.bind_eq_some_iff.mp h
        exact .inr (.inr ⟨r₁, .number hdeliver, move_of_afterValue hafter⟩)
  | inWord left v =>
      simp only [step] at h
      split at h
      · cases h
      · split_ifs at h
        · exact .inr (.inl (.word h))
        · cases h
          exact .inr (.inl (.spells stack))
  | afterElem => exact .inr (.inl (move_of_afterValue h))
  | afterField => exact .inr (.inl (move_of_afterValue h))
  | top v => exact .inr (.inl (move_of_afterValue h))

/-! ## Texts that were cut off -/

/-- Once an object or array is open, the machine is inside it or at the end. -/
def Reader.Opened (r : Reader) : Prop :=
  r.stack ≠ [] ∨ ∃ v, r.mode = .top v

theorem opened_of_deliver {v : Value} {stack : List Frame} {r : Reader}
    (h : deliver v stack = some r) : r.Opened := by
  unfold deliver at h
  split at h
  · cases h
    exact .inr ⟨v, rfl⟩
  · cases h
    exact .inl (List.cons_ne_nil _ _)
  · cases h
    exact .inl (List.cons_ne_nil _ _)
  · cases h

theorem Reader.Opened.stack_ne_nil {r : Reader} (h : r.Opened) (hmode : ∀ v, r.mode ≠ .top v) :
    r.stack ≠ [] := by
  rcases h with h | ⟨v, h⟩
  · exact h
  · exact absurd h (hmode v)

theorem opened_move {r r' : Reader} (hr : r.Opened) (h : Move r r') : r'.Opened := by
  cases h with
  | stays => exact hr
  | turns stack hm _ => exact .inl (hr.stack_ne_nil hm)
  | opens f stack _ _ => exact .inl (List.cons_ne_nil _ _)
  | named fields name stack => exact .inl (List.cons_ne_nil _ _)
  | spells stack => exact .inl (hr.stack_ne_nil nofun)
  | word h => exact opened_of_deliver h
  | number h => exact opened_of_deliver h
  | string h => exact opened_of_deliver h
  | closes _ h => exact opened_of_deliver h

theorem opened_step {r r' : Reader} {c : Char} (hr : r.Opened) (h : step r c = some r') :
    r'.Opened := by
  rcases step_moves h with ⟨p, p', hmode, -, rfl⟩ | ⟨r₁, h₁, h₂⟩
  · refine .inl (hr.stack_ne_nil fun v hv ↦ ?_)
    rw [hmode] at hv
    cases hv
  · exact opened_move (opened_move hr h₁) h₂

/-- Behind the value of the whole text there is only space. -/
theorem spaces_of_play_top {v : Value} {stack : List Frame} {cs : List Char} {r : Reader}
    (h : play step ⟨.top v, stack⟩ cs = some r) : ∀ c ∈ cs, isSpace c = true := by
  induction cs with
  | nil => nofun
  | cons c cs ih =>
      obtain ⟨u, hstep, hrest⟩ := play_cons h
      have hu : isSpace c = true ∧ u = ⟨.top v, stack⟩ := by
        simp only [step, afterValue] at hstep
        split_ifs at hstep with hc
        cases hstep
        exact ⟨hc, rfl⟩
      obtain ⟨hc, rfl⟩ := hu
      intro d hd
      rcases List.mem_cons.mp hd with rfl | hd
      · exact hc
      · exact ih hrest d hd

/-- Of a text that is one object, with no space behind it, every part that lacks
the end is refused as unfinished. -/
theorem parse_cut {p q : List Char} {r : Reader}
    (hplay : play step .init ('\x7b' :: p ++ q) = some r)
    (hlast : ∀ c ∈ q.getLast?, isSpace c = false) (hq : q ≠ []) :
    parse ('\x7b' :: p) = .error .unexpectedEnd := by
  rw [play_append] at hplay
  obtain ⟨r₁, hp, hrest⟩ := Option.bind_eq_some_iff.mp hplay
  have hopened : r₁.Opened := by
    obtain ⟨r₀, hopen, hplay₁⟩ := play_cons hp
    have hr₀ : r₀.Opened := by
      cases hopen
      exact .inl (List.cons_ne_nil _ _)
    exact play_invariant Reader.Opened (fun _ _ _ hr hs ↦ opened_step hr hs) hr₀ hplay₁
  have hfinish : r₁.finish = none := by
    unfold Reader.finish
    split
    · rename_i v hmode hstack
      -- The machine is done, so `q` would be space.
      obtain ⟨mode, stack⟩ := r₁
      simp only at hmode
      subst hmode
      have hspace := spaces_of_play_top hrest (q.getLast hq) (List.getLast_mem hq)
      rw [hlast _ (List.getLast?_eq_getLast_of_ne_nil hq)] at hspace
      cases hspace
    · rename_i s read hmode hstack
      exact absurd hstack (hopened.stack_ne_nil fun v hv ↦ by rw [hmode] at hv; cases hv)
    · rfl
  rw [parse, hp]
  simp only [hfinish]

theorem getLast?_printFields (depth : ℕ) (fields : List (List Char × Value)) :
    (printFields depth fields).getLast? = some '\x7d' := by
  induction fields with
  | nil => simp [printFields]
  | cons f fields ih =>
      obtain ⟨name, v⟩ := f
      rw [printFields]
      simp [List.getLast?_cons, List.getLast?_append, ih]

theorem getLast?_print_obj (depth : ℕ) (fields : List (List Char × Value)) :
    (print depth (.obj fields)).getLast? = some '\x7d' := by
  obtain _ | ⟨⟨name, v⟩, fields⟩ := fields
  · simp [print]
  · rw [print]
    simp [List.getLast?_cons, List.getLast?_append, getLast?_printFields]

theorem head?_print_obj (depth : ℕ) (fields : List (List Char × Value)) :
    (print depth (.obj fields)).head? = some '\x7b' := by
  obtain _ | ⟨⟨name, v⟩, fields⟩ := fields
  · simp [print]
  · simp [print]

/-- A printed object of which the end is missing is refused as unfinished. -/
theorem parse_take_print {n : ℕ} {fields : List (List Char × Value)}
    (h : Printable n (.obj fields)) (hn : n ≤ maxNestingDepth) (depth : ℕ) {k : ℕ}
    (hk : k < (print depth (.obj fields)).length) :
    parse ((print depth (.obj fields)).take k) = .error .unexpectedEnd := by
  have hplay := h.readsBack depth [] (by rwa [List.length_nil, Nat.zero_add])
  have hlast := getLast?_print_obj depth fields
  obtain ⟨cs, hcs⟩ := List.head?_eq_some_iff.mp (head?_print_obj depth fields)
  rw [hcs] at hk hplay hlast ⊢
  cases k with
  | zero => rfl
  | succ k =>
      have hdrop : cs.drop k ≠ [] := by
        rw [List.length_cons] at hk
        rw [Ne, List.drop_eq_nil_iff]
        omega
      have hwhole : play step .init ('\x7b' :: cs.take k ++ cs.drop k) =
          some ⟨.top (.obj fields), []⟩ := by
        rw [List.cons_append, List.take_append_drop]
        exact hplay
      have hend : (cs.drop k).getLast? = some '\x7d' := by
        rw [← hlast, ← List.take_append_drop k cs, List.getLast?_cons, List.getLast?_append]
        cases hl : (cs.drop k).getLast? with
        | none => exact absurd (List.getLast?_eq_none_iff.mp hl) hdrop
        | some c => simp [hl]
      rw [List.take_succ_cons]
      refine parse_cut hwhole (fun c hc ↦ ?_) hdrop
      cases hend.symm.trans hc
      rfl

end Json
