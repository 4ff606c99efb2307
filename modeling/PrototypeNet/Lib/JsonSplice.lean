import PrototypeNet.Lib.JsonRoundTrip

/-!
# JSON objects put together from texts

A script that builds an object by putting texts between quotes, without any
escape, has it read back as meant if the texts are plain.  A text that is not
plain may bring fields of its own into the object, but it is never read back as
itself: whatever is read from within it is shorter than it.
-/

namespace Json

open Runs Text

/-! ## Objects of texts -/

def spliceField (name raw : List Char) : List Char :=
  printString name ++ ':' :: ' ' :: '"' :: (raw ++ ['"'])

/-- The fields behind the first one. -/
def spliceFields (fields : List (List Char × List Char)) : List Char :=
  fields.flatMap fun f ↦ ',' :: (newline 1 ++ spliceField f.1 f.2)

def spliceEnd : List Char := newline 0 ++ ['\x7d']

/-- The object with the given texts between quotes, one field per line. -/
def splice (first : List Char × List Char) (fields : List (List Char × List Char)) : List Char :=
  '\x7b' :: (newline 1 ++ (spliceField first.1 first.2 ++ (spliceFields fields ++ spliceEnd)))

def strEntries (fields : List (List Char × List Char)) : List (List Char × Value) :=
  fields.map fun f ↦ (f.1, .str f.2)

/-- The texts of the fields as they are put between the quotes. -/
def escapeWith (esc : List Char → List Char) (fields : List (List Char × List Char)) :
    List (List Char × List Char) :=
  fields.map fun f ↦ (f.1, esc f.2)

section Reading

variable {stack : List Frame} {esc : List Char → List Char}

theorem play_spliceField {mode : Mode} (hmode : mode = .name ∨ mode = .nameOrClose)
    (fields : List (List Char × Value)) (name : List Char) {raw s : List Char}
    (h : ReadsAs raw s) (cs : List Char) :
    play step ⟨mode, .obj fields :: stack⟩ (spliceField name raw ++ cs) =
      play step ⟨.afterField, .obj (fields ++ [(name, .str s)]) :: stack⟩ cs := by
  have htext : spliceField name raw ++ cs =
      printString name ++ ':' :: ' ' :: ('"' :: (raw ++ ['"']) ++ cs) := by
    simp [spliceField]
  rw [htext, play_name hmode, play_append, play_quoted h, deliver_field, Option.bind_some]

theorem step_comma (fields : List (List Char × Value)) :
    step ⟨.afterField, .obj fields :: stack⟩ ',' = some ⟨.name, .obj fields :: stack⟩ := rfl

theorem play_spliceFields {fields : List (List Char × List Char)}
    (h : ∀ f ∈ fields, ReadsAs (esc f.2) f.2) (before : List (List Char × Value))
    (cs : List Char) :
    play step ⟨.afterField, .obj before :: stack⟩ (spliceFields (escapeWith esc fields) ++ cs) =
      play step ⟨.afterField, .obj (before ++ strEntries fields) :: stack⟩ cs := by
  induction fields generalizing before with
  | nil => simp [spliceFields, escapeWith, strEntries]
  | cons f fields ih =>
      have htext : spliceFields (escapeWith esc (f :: fields)) ++ cs =
          ',' :: (newline 1 ++ (spliceField f.1 (esc f.2) ++
            (spliceFields (escapeWith esc fields) ++ cs))) := by
        simp [spliceFields, escapeWith]
      rw [htext, play, step_comma]
      simp only
      rw [play_newline rfl, play_spliceField (.inl rfl) _ _ (h f List.mem_cons_self),
        ih fun g hg ↦ h g (List.mem_cons_of_mem _ hg)]
      simp [strEntries]

theorem play_splice (first : List Char × List Char) (hfirst : ReadsAs (esc first.2) first.2)
    (fields : List (List Char × List Char)) (cs : List Char) :
    play step .init (splice (first.1, esc first.2) fields ++ cs) =
      play step ⟨.afterField, [.obj (strEntries [first])]⟩
        (spliceFields fields ++ (spliceEnd ++ cs)) := by
  have htext : splice (first.1, esc first.2) fields ++ cs =
      '\x7b' :: (newline 1 ++ (spliceField first.1 (esc first.2) ++
        (spliceFields fields ++ (spliceEnd ++ cs)))) := by
    simp [splice]
  have hopen : step .init '\x7b' = some ⟨.nameOrClose, [.obj []]⟩ := rfl
  rw [htext, play, hopen]
  simp only
  rw [play_newline rfl, play_spliceField (.inr rfl) _ _ hfirst]
  rfl

theorem skipsSpace_of_deliver {v : Value} {r : Reader} (h : deliver v stack = some r) :
    r.mode.skipsSpace = true := by
  unfold deliver at h
  split at h <;> cases h <;> rfl

theorem play_spliceEnd (fields : List (List Char × Value)) {tail : List Char}
    (htail : ∀ c ∈ tail, isSpace c = true) :
    play step ⟨.afterField, .obj fields :: stack⟩ (spliceEnd ++ tail) =
      deliver (.obj fields) stack := by
  have hclose : step ⟨.afterField, .obj fields :: stack⟩ '\x7d' =
      deliver (.obj fields) stack := rfl
  rw [spliceEnd, List.append_assoc, play_newline rfl, List.singleton_append, play, hclose]
  cases hd : deliver (.obj fields) stack with
  | none => rfl
  | some r => exact play_spaces (skipsSpace_of_deliver hd) htail

/-- Texts that are read as what they stand for make an object of these. -/
theorem parse_splice {first : List Char × List Char} {fields : List (List Char × List Char)}
    (h : ∀ f ∈ first :: fields, ReadsAs (esc f.2) f.2) {tail : List Char}
    (htail : ∀ c ∈ tail, isSpace c = true) :
    parse (splice (first.1, esc first.2) (escapeWith esc fields) ++ tail) =
      .ok (.obj (strEntries (first :: fields))) := by
  have hfields := fun f hf ↦ h f (List.mem_cons_of_mem _ hf)
  rw [parse, play_splice first (h first List.mem_cons_self), play_spliceFields hfields,
    play_spliceEnd _ htail]
  rfl

end Reading

/-! ## A text that is not plain -/

section Straying

/-- The value of a string is shorter than `n`. -/
def Short (n : ℕ) (v : Value) : Prop :=
  ∀ s, v = .str s → s.length < n

def Frame.entries : Frame → Option (List (List Char × Value))
  | .arr _ => none
  | .obj fields => some fields
  | .field fields _ => some fields

/-- The outermost frame is an object that begins with the fields `before`, and
the strings behind them are shorter than `n`. -/
def Rooted (before : List (List Char × Value)) (n : ℕ) (stack : List Frame) : Prop :=
  ∃ f extra, stack.getLast? = some f ∧ f.entries = some (before ++ extra) ∧
    ∀ e ∈ extra, Short n e.2

def Mode.Legal : Mode → Prop
  | .inWord left v => '"' ∉ left ∧ ∀ s, v ≠ .str s
  | _ => True

/-- Within a text of `n` characters that was put between quotes, the machine has
met a quote or a backslash. -/
structure Reader.Strayed (before : List (List Char × Value)) (n : ℕ) (r : Reader) : Prop where
  pos : 0 < n
  legal : r.mode.Legal
  place : (∃ v, r = ⟨.top v, []⟩) ∨
    Rooted before n r.stack ∧ ∀ p, r.mode = .inString p → p.text.length < n

variable {before : List (List Char × Value)} {n : ℕ} {stack : List Frame}

theorem Mode.Begins.legal {m : Mode} (h : m.Begins) : m.Legal := by
  cases m <;> trivial

theorem Short.mono {m : ℕ} {v : Value} (h : Short n v) (hm : n ≤ m) : Short m v :=
  fun s hs ↦ (h s hs).trans_le hm

theorem short_of_ne {v : Value} (h : ∀ s, v ≠ .str s) : Short n v :=
  fun s hs ↦ absurd hs (h s)

theorem Rooted.mono {m : ℕ} (h : Rooted before n stack) (hm : n ≤ m) : Rooted before m stack := by
  obtain ⟨f, extra, hlast, hentries, hshort⟩ := h
  exact ⟨f, extra, hlast, hentries, fun e he ↦ (hshort e he).mono hm⟩

theorem Rooted.ne_nil (h : Rooted before n stack) : stack ≠ [] := by
  rintro rfl
  obtain ⟨f, extra, hlast, -⟩ := h
  cases hlast

theorem rooted_cons {f : Frame} (h : stack ≠ []) :
    Rooted before n (f :: stack) ↔ Rooted before n stack := by
  rw [Rooted, Rooted, List.getLast?_cons_of_ne_nil h]

theorem rooted_singleton {f : Frame} (h : Rooted before n [f]) :
    ∃ extra, f.entries = some (before ++ extra) ∧ ∀ e ∈ extra, Short n e.2 := by
  obtain ⟨g, extra, hlast, hentries, hshort⟩ := h
  cases hlast
  exact ⟨extra, hentries, hshort⟩

/-- A frame in the place of another one with the same fields. -/
theorem Rooted.replace {f g : Frame} (h : Rooted before n (f :: stack))
    (hfg : g.entries = f.entries) : Rooted before n (g :: stack) := by
  by_cases hnil : stack = []
  · subst hnil
    obtain ⟨extra, hentries, hshort⟩ := rooted_singleton h
    exact ⟨g, extra, rfl, hfg.trans hentries, hshort⟩
  · rw [rooted_cons hnil] at h ⊢
    exact h

theorem strayed_deliver {v : Value} {r : Reader} (hn : 0 < n) (h : Rooted before n stack)
    (hv : Short n v) (hd : deliver v stack = some r) : r.Strayed before n := by
  cases stack with
  | nil => exact absurd rfl h.ne_nil
  | cons f stack =>
      cases f with
      | obj fields => cases hd
      | arr elems =>
          cases hd
          exact ⟨hn, trivial, .inr ⟨h.replace rfl, nofun⟩⟩
      | field fields name =>
          cases hd
          refine ⟨hn, trivial, .inr ⟨?_, nofun⟩⟩
          by_cases hnil : stack = []
          · subst hnil
            obtain ⟨extra, hentries, hshort⟩ := rooted_singleton h
            have hfields : fields = before ++ extra := Option.some.inj hentries
            refine ⟨_, extra ++ [(name, v)], rfl, ?_, ?_⟩
            · rw [hfields, ← List.append_assoc]
              rfl
            · intro e he
              rcases List.mem_append.mp he with he | he
              · exact hshort e he
              · rw [List.mem_singleton.mp he]
                exact hv
          · rw [rooted_cons hnil] at h ⊢
            exact h

theorem strayed_move {r r' : Reader} (hr : r.Strayed before n) (h : Move r r') :
    r'.Strayed before n := by
  obtain ⟨hn, hlegal, hplace⟩ := hr
  -- At the end only space is read; before it, the outermost object is still open.
  cases h with
  | stays => exact ⟨hn, hlegal, hplace⟩
  | @turns m m' stack hm hm' =>
      rcases hplace with ⟨v, hv⟩ | ⟨hroot, -⟩
      · exact absurd (congrArg Reader.mode hv) (hm v)
      · refine ⟨hn, hm'.legal, .inr ⟨hroot, ?_⟩⟩
        rintro p rfl
        rw [show p = .empty from hm']
        exact hn
  | @opens m m' f stack hm hm' =>
      rcases hplace with ⟨v, hv⟩ | ⟨hroot, -⟩
      · exact absurd (congrArg Reader.mode hv) (hm v)
      · refine ⟨hn, hm'.legal, .inr ⟨(rooted_cons hroot.ne_nil).mpr hroot, ?_⟩⟩
        rintro p rfl
        rw [show p = .empty from hm']
        exact hn
  | named fields name stack =>
      rcases hplace with ⟨v, hv⟩ | ⟨hroot, -⟩
      · cases hv
      · exact ⟨hn, trivial, .inr ⟨hroot.replace rfl, nofun⟩⟩
  | spells stack =>
      rcases hplace with ⟨v, hv⟩ | ⟨hroot, -⟩
      · cases hv
      · exact ⟨hn, ⟨fun hmem ↦ hlegal.1 (List.mem_cons_of_mem _ hmem), hlegal.2⟩,
          .inr ⟨hroot, nofun⟩⟩
  | word hd =>
      rcases hplace with ⟨v, hv⟩ | ⟨hroot, -⟩
      · cases hv
      · exact strayed_deliver hn hroot (short_of_ne hlegal.2) hd
  | @number s read stack r' hd =>
      have hv : ∀ s, Value.num read ≠ .str s := nofun
      rcases hplace with ⟨v, hv⟩ | ⟨hroot, -⟩
      · cases hv
      · exact strayed_deliver hn hroot (short_of_ne hv) hd
  | @string p stack r' hd =>
      rcases hplace with ⟨v, hv⟩ | ⟨hroot, hshort⟩
      · cases hv
      · refine strayed_deliver hn hroot ?_ hd
        rintro s hs
        cases hs
        exact hshort p rfl
  | @closes m f v stack r' hf hd =>
      rcases hplace with ⟨v, hv⟩ | ⟨hroot, -⟩
      · cases hv
      · have hv : ∀ s, v ≠ .str s := by
          rintro s rfl
          cases f <;> cases hf
        by_cases hnil : stack = []
        · subst hnil
          cases hd
          exact ⟨hn, trivial, .inl ⟨v, rfl⟩⟩
        · exact strayed_deliver hn ((rooted_cons hnil).mp hroot) (short_of_ne hv) hd

theorem length_text_step {p p' : Unfinished} {c : Char} (h : p.step c = some p') :
    p'.text.length ≤ p.text.length + 1 := by
  have hpush (c : Char) : (p.push c).text.length ≤ p.text.length + 1 := by
    simp [Unfinished.push, Unfinished.text]
  have hread : p.read.length ≤ p.text.length := by
    unfold Unfinished.text
    split_ifs <;> simp
  unfold Unfinished.step at h
  split at h
  · split_ifs at h <;> cases h
    · exact Nat.le_succ _
    · exact hpush c
  · split_ifs at h
    · cases h
      exact Nat.le_succ _
    · obtain ⟨d, -, rfl⟩ := Option.map_eq_some_iff.mp h
      exact hpush d
  · obtain ⟨d, -, rfl⟩ := Option.map_eq_some_iff.mp h
    split_ifs
    · unfold Unfinished.pushUnit
      split
      · split_ifs
        · simpa [Unfinished.text] using hread
        · simp [Unfinished.text]
        · exact hpush _
      · split_ifs
        · exact hpush _
        · simpa [Unfinished.text] using hread
        · exact hpush _
    · exact Nat.le_succ _

theorem strayed_step {r r' : Reader} {c : Char} (hr : r.Strayed before n)
    (h : step r c = some r') : r'.Strayed before (n + 1) := by
  rcases step_moves h with ⟨p, p', hmode, hp, rfl⟩ | ⟨r₁, h₁, h₂⟩
  · rcases hr.place with ⟨v, hv⟩ | ⟨hroot, hshort⟩
    · rw [hv] at hmode
      cases hmode
    · refine ⟨n.succ_pos, trivial, .inr ⟨hroot.mono n.le_succ, ?_⟩⟩
      rintro q hq
      cases hq
      have hgrown := length_text_step hp
      have hlt := hshort p hmode
      omega
  · obtain ⟨hn, hlegal, hplace⟩ := strayed_move (strayed_move hr h₁) h₂
    refine ⟨n.succ_pos, hlegal, hplace.imp_right fun ⟨hroot, hshort⟩ ↦ ?_⟩
    exact ⟨hroot.mono n.le_succ, fun p hp ↦ (hshort p hp).trans (Nat.lt_succ_self n)⟩

/-- In a text between quotes the machine has read nothing but plain characters,
or it has strayed. -/
theorem play_inserted {name X : List Char} {r : Reader}
    (h : play step ⟨.inString .empty, [.field before name]⟩ X = some r) :
    ((∀ c ∈ X, isPlain c = true) ∧
      r = ⟨.inString ⟨.none, none, X⟩, [.field before name]⟩) ∨ r.Strayed before X.length := by
  induction X using List.reverseRecOn generalizing r with
  | nil =>
      cases h
      exact .inl ⟨by simp, rfl⟩
  | append_singleton X c ih =>
      obtain ⟨u, hu, hstep⟩ := play_concat h
      rw [List.length_append, List.length_singleton]
      rcases ih hu with ⟨hplain, rfl⟩ | hstrayed
      · have hroot : Rooted before (X.length + 1) [.field before name] :=
          ⟨_, [], rfl, by rw [List.append_nil]; rfl, by simp⟩
        by_cases hquote : c = '"'
        · subst hquote
          refine .inr (strayed_deliver X.length.succ_pos hroot ?_ hstep)
          rintro s hs
          cases hs
          exact Nat.lt_succ_self _
        · rw [readsString_inString _ _ _ fun hc ↦ hquote hc.2] at hstep
          obtain ⟨p, hp, rfl⟩ := Option.map_eq_some_iff.mp hstep
          simp only [Unfinished.step] at hp
          split_ifs at hp with hescape hcontrol
          · cases hp
            refine .inr ⟨X.length.succ_pos, trivial, .inr ⟨hroot, ?_⟩⟩
            rintro p hp
            cases hp
            exact Nat.lt_succ_self _
          · cases hp
            refine .inl ⟨?_, rfl⟩
            intro d hd
            rcases List.mem_append.mp hd with hd | hd
            · exact hplain d hd
            · rw [List.mem_singleton.mp hd]
              exact isPlain_iff.mpr ⟨hquote, hescape, not_lt.mp hcontrol⟩
      · exact .inr (strayed_step hstrayed hstep)

/-- A quote that does not end a string was escaped. -/
theorem escape_of_quote {p q : Unfinished} (hp : p.escape ≠ .none) (h : p.step '"' = some q) :
    q.escape = .none := by
  unfold Unfinished.step at h
  split at h
  · exact absurd ‹_› hp
  · cases h
    rfl
  · cases h

theorem afterValue_quote (r : Reader) : afterValue r '"' = none := by
  obtain ⟨mode, stack⟩ := r
  cases mode <;> rfl

/-- No string goes on over the end of a line, so a quote with a comma behind it
at the end of a line ends the value of a string. -/
theorem quote_ends {r r' : Reader} (hr : r.mode.Legal) {rest : List Char}
    (h : play step r ('"' :: ',' :: '\n' :: rest) = some r') :
    ∃ p r₁, r.mode = .inString p ∧ deliver (.str p.text) r.stack = some r₁ ∧
      play step r₁ (',' :: '\n' :: rest) = some r' := by
  obtain ⟨mode, stack⟩ := r
  have hopen {wrap : Unfinished → Mode} (hwrap : ReadsString wrap stack) (p : Unfinished)
      (hp : p.escape = .none) : play step ⟨wrap p, stack⟩ (',' :: '\n' :: rest) = none := by
    simp [play, hwrap _ _, Unfinished.step, hp, Unfinished.push]
  obtain ⟨u, hu, hrest⟩ := play_cons h
  cases mode with
  | value =>
      cases hu
      rw [hopen (readsString_inString _) _ rfl] at hrest
      cases hrest
  | valueOrClose =>
      cases hu
      rw [hopen (readsString_inString _) _ rfl] at hrest
      cases hrest
  | name =>
      cases hu
      rw [hopen (readsString_inName _) _ rfl] at hrest
      cases hrest
  | nameOrClose =>
      cases hu
      rw [hopen (readsString_inName _) _ rfl] at hrest
      cases hrest
  | inName p =>
      by_cases hp : p.escape = .none
      · have hstep : step ⟨.inName p, stack⟩ '"' = nameRead p.text stack := if_pos ⟨hp, rfl⟩
        have hname := hstep.symm.trans hu
        unfold nameRead at hname
        split at hname
        · cases hname
          cases hrest
        · cases hname
      · rw [readsString_inName _ _ _ fun hc ↦ hp hc.1] at hu
        obtain ⟨q, hq, rfl⟩ := Option.map_eq_some_iff.mp hu
        rw [hopen (readsString_inName _) _ (escape_of_quote hp hq)] at hrest
        cases hrest
  | colon => cases hu
  | inString p =>
      by_cases hp : p.escape = .none
      · have hstep : step ⟨.inString p, stack⟩ '"' = deliver (.str p.text) stack :=
          if_pos ⟨hp, rfl⟩
        exact ⟨p, u, rfl, hstep.symm.trans hu, hrest⟩
      · rw [readsString_inString _ _ _ fun hc ↦ hp hc.1] at hu
        obtain ⟨q, hq, rfl⟩ := Option.map_eq_some_iff.mp hu
        rw [hopen (readsString_inString _) _ (escape_of_quote hp hq)] at hrest
        cases hrest
  | inNumber s read =>
      have hnum : numStep s '"' = none := by cases s <;> rfl
      simp only [step, hnum] at hu
      split_ifs at hu
      obtain ⟨r₁, hd, hafter⟩ := Option.bind_eq_some_iff.mp hu
      rw [afterValue_quote] at hafter
      cases hafter
  | inWord left v =>
      simp only [step] at hu
      split at hu
      · cases hu
      · rename_i w left
        rw [if_neg fun hw : '"' = w ↦ hr.1 (hw ▸ List.mem_cons_self)] at hu
        cases hu
  | afterElem => cases hu
  | afterField => cases hu
  | top v => cases hu

/-- The line of a further field is read in an object only. -/
theorem next_field {v : Value} {r r' : Reader} {name raw cs : List Char}
    (hd : deliver v stack = some r)
    (h : play step r (',' :: (newline 1 ++ (spliceField name raw ++ cs))) = some r') :
    ∃ fields last rest, stack = .field fields last :: rest ∧
      r = ⟨.afterField, .obj (fields ++ [(last, v)]) :: rest⟩ := by
  unfold deliver at hd
  split at hd
  · cases hd
    cases h
  · cases hd
    -- An array: the name is its next element, with a colon behind it.
    rename_i elems rest
    have htext : spliceField name raw ++ cs =
        '"' :: (name.flatMap escapeChar ++ ['"']) ++ ':' :: ' ' :: '"' :: (raw ++ '"' :: cs) := by
      simp [spliceField, printString]
    have hcomma : step ⟨.afterElem, .arr (elems ++ [v]) :: rest⟩ ',' =
        some ⟨.value, .arr (elems ++ [v]) :: rest⟩ := rfl
    rw [play, hcomma] at h
    simp only at h
    rw [play_newline rfl, htext, play_append, play_quoted (readsAs_escaped name), deliver_arr,
      Option.bind_some] at h
    cases h
  · cases hd
    exact ⟨_, _, _, rfl, rfl⟩
  · cases hd

theorem finish_of_deliver {v w : Value} {r : Reader} (hd : deliver v stack = some r)
    (h : r.finish = some w) : stack = [] ∧ w = v := by
  unfold deliver at hd
  split at hd
  · cases hd
    cases h
    exact ⟨rfl, rfl⟩
  · cases hd
    cases h
  · cases hd
    cases h
  · cases hd

end Straying

section Inserted

variable {esc : List Char → List Char} {first next : List Char × List Char}
  {before after : List (List Char × List Char)} {name X tail : List Char} {v : Value}

theorem parse_eq_ok {cs : List Char} (h : parse cs = .ok v) :
    ∃ r, play step .init cs = some r ∧ r.finish = some v := by
  unfold parse at h
  cases hplay : play step .init cs with
  | none => simp [hplay] at h
  | some r =>
      cases hfinish : r.finish with
      | none => simp [hplay, hfinish] at h
      | some w =>
          simp only [hplay, hfinish] at h
          cases h
          exact ⟨r, rfl, hfinish⟩

theorem play_to_inserted (hbefore : ∀ f ∈ first :: before, ReadsAs (esc f.2) f.2)
    (fields : List (List Char × List Char)) :
    play step .init (splice (first.1, esc first.2)
        (escapeWith esc before ++ (name, X) :: fields) ++ tail) =
      (play step ⟨.inString .empty, [.field (strEntries (first :: before)) name]⟩ X).bind
        fun r ↦ play step r ('"' :: (spliceFields fields ++ (spliceEnd ++ tail))) := by
  have htext : spliceFields (escapeWith esc before ++ (name, X) :: fields) ++
      (spliceEnd ++ tail) = spliceFields (escapeWith esc before) ++
        ',' :: (newline 1 ++ (printString name ++ ':' :: ' ' :: '"' :: (X ++
          '"' :: (spliceFields fields ++ (spliceEnd ++ tail))))) := by
    simp [spliceFields, spliceField]
  have hquote (stack : List Frame) :
      step ⟨.value, stack⟩ '"' = some ⟨.inString .empty, stack⟩ := rfl
  rw [play_splice first (hbefore first List.mem_cons_self), htext,
    play_spliceFields fun f hf ↦ hbefore f (List.mem_cons_of_mem _ hf), play, step_comma]
  simp only
  rw [play_newline rfl, play_name (.inl rfl), play, hquote]
  simp only
  rw [play_append]
  rfl

/-- A text between quotes is read as itself if it is plain.  Otherwise every
string read from within it, as the value of whatever field, is shorter. -/
theorem parse_inserted (hbefore : ∀ f ∈ first :: before, ReadsAs (esc f.2) f.2)
    (hafter : ∀ f ∈ next :: after, ReadsAs (esc f.2) f.2)
    (htail : ∀ c ∈ tail, isSpace c = true)
    (h : parse (splice (first.1, esc first.2)
      (escapeWith esc before ++ (name, X) :: escapeWith esc (next :: after)) ++ tail) = .ok v) :
    ∃ entries, v = .obj (strEntries (first :: before) ++ entries ++ strEntries (next :: after)) ∧
      ((∀ c ∈ X, isPlain c = true) ∧ entries = [(name, .str X)] ∨
        0 < X.length ∧ ∀ e ∈ entries, Short X.length e.2) := by
  obtain ⟨r, hplay, hfinish⟩ := parse_eq_ok h
  rw [play_to_inserted hbefore] at hplay
  obtain ⟨r₁, hX, hrest⟩ := Option.bind_eq_some_iff.mp hplay
  have hread := play_inserted hX
  have hlegal : r₁.mode.Legal := by
    rcases hread with ⟨-, rfl⟩ | hstrayed
    · trivial
    · exact hstrayed.legal
  have hline : spliceFields (escapeWith esc (next :: after)) ++ (spliceEnd ++ tail) =
      ',' :: (newline 1 ++ (spliceField next.1 (esc next.2) ++
        (spliceFields (escapeWith esc after) ++ (spliceEnd ++ tail)))) := by
    simp [spliceFields, escapeWith]
  rw [hline] at hrest
  obtain ⟨p, r₂, hmode, hdeliver, hnext⟩ := quote_ends hlegal hrest
  obtain ⟨fields, last, stack, hstack, rfl⟩ := next_field hdeliver hnext
  -- The rest of the text is read as it was meant, and closes the outermost object.
  have hend : deliver (.obj (fields ++ [(last, .str p.text)] ++ strEntries (next :: after)))
      stack = some r := by
    rw [← play_spliceEnd _ htail, ← play_spliceFields hafter, hline]
    exact hnext
  obtain ⟨rfl, rfl⟩ := finish_of_deliver hend hfinish
  rcases hread with ⟨hplain, rfl⟩ | ⟨hpos, -, hplace⟩
  · cases hstack
    cases hmode
    exact ⟨[(name, .str X)], rfl, .inl ⟨hplain, rfl⟩⟩
  · rcases hplace with ⟨w, rfl⟩ | ⟨hroot, hshort⟩
    · cases hmode
    · rw [hstack] at hroot
      obtain ⟨extra, hentries, hextra⟩ := rooted_singleton hroot
      have hfields : fields = strEntries (first :: before) ++ extra := Option.some.inj hentries
      refine ⟨extra ++ [(last, .str p.text)], ?_, .inr ⟨hpos, ?_⟩⟩
      · rw [hfields, List.append_assoc (strEntries _)]
      · intro e he
        rcases List.mem_append.mp he with he | he
        · exact hextra e he
        · rw [List.mem_singleton.mp he]
          rintro s hs
          cases hs
          exact hshort p hmode

end Inserted

/-! ## Records -/

theorem storeEntries_cons {σ : Type} {fields : List (RecordField σ)} {e : List Char × Value}
    {s u : σ} (h : storeField fields s e = some u) (entries : List (List Char × Value)) :
    (e :: entries).foldlM (storeField fields) s = entries.foldlM (storeField fields) u := by
  rw [List.foldlM_cons, h]
  rfl

/-- What storing an entry keeps, storing all of them keeps. -/
theorem storeEntries_invariant {σ : Type} {fields : List (RecordField σ)}
    {entries : List (List Char × Value)} (P : σ → Prop)
    (hstep : ∀ e ∈ entries, ∀ s s', P s → storeField fields s e = some s' → P s') {s s' : σ}
    (hs : P s) (h : entries.foldlM (storeField fields) s = some s') : P s' := by
  induction entries generalizing s with
  | nil =>
      cases h
      exact hs
  | cons e entries ih =>
      rw [List.foldlM_cons] at h
      obtain ⟨u, hu, hrest⟩ := Option.bind_eq_some_iff.mp h
      exact ih (fun d hd ↦ hstep d (List.mem_cons_of_mem _ hd))
        (hstep e List.mem_cons_self s u hs hu) hrest

theorem mem_of_matchField {σ : Type} {fields : List (RecordField σ)} {key : List Char}
    {f : RecordField σ} (h : matchField fields key = some f) : f ∈ fields := by
  unfold matchField at h
  cases hname : fields.find? fun f ↦ f.name = key with
  | some g =>
      rw [hname] at h
      cases h
      exact List.mem_of_find?_eq_some hname
  | none =>
      rw [hname] at h
      exact List.mem_of_find?_eq_some h

/-- If the names differ, a key that is a name is stored in the field of this
name. -/
theorem storeField_of_mem {σ : Type} {fields : List (RecordField σ)}
    (hnodup : (fields.map RecordField.name).Nodup) {f : RecordField σ} (hf : f ∈ fields)
    (v : Value) (s : σ) : storeField fields s (f.name, v) = f.store v s := by
  have hfind : (fields.find? fun g ↦ g.name = f.name) = some f := by
    cases hfound : fields.find? fun g ↦ g.name = f.name with
    | none => exact absurd (decide_eq_true rfl) (List.find?_eq_none.mp hfound f hf)
    | some g =>
        have hname := List.find?_some hfound
        rw [decide_eq_true_eq] at hname
        rw [List.inj_on_of_nodup_map hnodup (List.mem_of_find?_eq_some hfound) hf hname]
  rw [storeField, matchField, hfind]
  rfl

theorem store_str {σ : Type} {name : List Char} {set : List Char → σ → σ} {v : Value} {s s' : σ}
    (h : (RecordField.str name set).store v s = some s') :
    (∃ text, v = .str text ∧ s' = set text s) ∨ s' = s := by
  cases v with
  | str text =>
      cases h
      exact .inl ⟨text, rfl, rfl⟩
  | null =>
      cases h
      exact .inr rfl
  | _ => cases h

theorem storeValue_obj_eq_ok {σ : Type} {fields : List (RecordField σ)} {s s' : σ}
    {entries : List (List Char × Value)} (h : storeValue fields s (.obj entries) = .ok s') :
    entries.foldlM (storeField fields) s = some s' := by
  rw [storeValue] at h
  split at h
  · cases h
    assumption
  · cases h

theorem unmarshal_eq_ok {σ : Type} {fields : List (RecordField σ)} {zero s : σ}
    {cs : List Char} (h : unmarshal fields zero cs = .ok s) :
    ∃ v, parse cs = .ok v ∧ storeValue fields zero v = .ok s := by
  unfold unmarshal at h
  split at h
  · exact ⟨_, ‹_›, h⟩
  · cases h

end Json
