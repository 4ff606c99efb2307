import PrototypeNet.Lib.Xml

/-!
# Texts of elements

The texts of all elements of one name, which must hold no other elements.  A
document is given as parts, each some markup that is read as it is written and
then one such element around an arbitrary text.  Reading it finds the texts
that were written just if every one of them can be written as it is: a text
that means something else makes its own element too short or the reader late,
and a late reader never catches up.
-/

namespace Xml

variable {α β : Type} {name : List Char}

def tagName (content : List Char) : List Char :=
  content.takeWhile isNameChar

/-- The name in a tag. -/
def Markup.tag? : Markup → Option (List Char)
  | .startTag content => some (tagName content)
  | .emptyTag content => some (tagName content)
  | .endTag content => some (tagName content)
  | _ => none

def Token.tag? : Token α → Option (List Char)
  | .sym _ => none
  | .mark m => m.tag?

/-- Collect the text of the element that is open, if one is; comments and
instructions do not interrupt it. -/
def textStep (name : List Char) :
    Option (List α) → Token α → Option (List (List α) × Option (List α))
  | acc, .sym a => some ([], acc.map (· ++ [a]))
  | none, .mark (.startTag content) => some ([], if tagName content = name then some [] else none)
  | none, .mark (.emptyTag content) => some (if tagName content = name then [[]] else [], none)
  | none, .mark (.endTag _) => some ([], none)
  | some _, .mark (.startTag _) => none
  | some _, .mark (.emptyTag _) => none
  | some text, .mark (.endTag content) =>
      if tagName content = name then some ([text], none) else none
  | acc, .mark _ => some ([], acc)

def texts (name : List Char) :
    Option (List α) → List (Token α) → Option (List (List α) × Option (List α)) :=
  Transducer.run (textStep name)

/-- The texts of the elements called `name`, in order. -/
def elementTexts (name : List Char) (ts : List (Token α)) : Option (List (List α)) :=
  (texts name none ts).bind fun final ↦ if final.2.isNone then some final.1 else none

/-- What a token can do to the text that is being collected. -/
inductive TextStep (name : List Char) :
    Option (List α) → Token α → List (List α) → Option (List α) → Prop
  | sym (acc : Option (List α)) (a : α) : TextStep name acc (.sym a) [] (acc.map (· ++ [a]))
  | skip (acc : Option (List α)) (m : Markup) : TextStep name acc (.mark m) [] acc
  | opening {content : List Char} (h : tagName content = name) :
      TextStep name none (.mark (.startTag content)) [] (some [])
  | empty {content : List Char} (h : tagName content = name) :
      TextStep name none (.mark (.emptyTag content)) [[]] none
  | closing {content : List Char} (text : List α) (h : tagName content = name) :
      TextStep name (some text) (.mark (.endTag content)) [text] none

theorem textStep_cases {acc acc' : Option (List α)} {t : Token α} {out : List (List α)}
    (h : textStep name acc t = some (out, acc')) : TextStep name acc t out acc' := by
  cases t with
  | sym a => cases acc <;> cases h <;> exact .sym _ a
  | mark m =>
      cases m with
      | instruction content => cases acc <;> cases h <;> exact .skip _ _
      | doctype content => cases acc <;> cases h <;> exact .skip _ _
      | comment content => cases acc <;> cases h <;> exact .skip _ _
      | startTag content =>
          cases acc <;> cases h
          split
          · exact .opening ‹_›
          · exact .skip _ _
      | emptyTag content =>
          cases acc <;> cases h
          split
          · exact .empty ‹_›
          · exact .skip _ _
      | endTag content =>
          cases acc with
          | none => cases h; exact .skip _ _
          | some text =>
              rw [textStep] at h
              split at h
              · cases h
                exact .closing text ‹_›
              · cases h

theorem texts_cons {acc acc' : Option (List α)} {t : Token α} {ts : List (Token α)}
    {out : List (List α)} (h : textStep name acc t = some (out, acc')) :
    texts name acc (t :: ts) = (texts name acc' ts).map fun rest ↦ (out ++ rest.1, rest.2) :=
  Transducer.run_cons_of_some h

theorem texts_append {acc acc' : Option (List α)} {ts us : List (Token α)} {out : List (List α)}
    (h : texts name acc ts = some (out, acc')) :
    texts name acc (ts ++ us) = (texts name acc' us).map fun rest ↦ (out ++ rest.1, rest.2) :=
  Transducer.run_append_of_some h

theorem textStep_sym (acc : Option (List α)) (a : α) :
    textStep name acc (.sym a) = some ([], acc.map (· ++ [a])) := by
  cases acc <;> rfl

theorem texts_sym (acc : Option (List α)) (l : List α) :
    texts name acc (l.map .sym) = some ([], acc.map (· ++ l)) := by
  induction l generalizing acc with
  | nil => simp [texts, Transducer.run]
  | cons a l ih =>
      rw [List.map_cons, texts_cons (textStep_sym acc a), ih]
      cases acc <;> simp

theorem textStep_of_other {t : Token α} (h : t.tag? ≠ some name) :
    textStep name none t = some ([], none) := by
  cases t with
  | sym a => rfl
  | mark m =>
      cases m with
      | startTag content => rw [textStep, if_neg fun hc ↦ h (congrArg some hc)]
      | emptyTag content => rw [textStep, if_neg fun hc ↦ h (congrArg some hc)]
      | instruction content => rfl
      | doctype content => rfl
      | comment content => rfl
      | endTag content => rfl

theorem texts_of_other {ts : List (Token α)} (h : ∀ t ∈ ts, t.tag? ≠ some name) :
    texts name none ts = some ([], none) := by
  induction ts with
  | nil => rfl
  | cons t ts ih =>
      have hstep := textStep_of_other (h t List.mem_cons_self)
      rw [texts_cons hstep, ih fun u hu ↦ h u (List.mem_cons_of_mem _ hu)]
      rfl

/-! ## Lengths -/

theorem length_tagName_le (content : List Char) : (tagName content).length ≤ content.length :=
  (List.takeWhile_prefix _).length_le

/-- A text that is completed was shorter than what was read of its element by
the length of an end tag. -/
theorem textStep_length {acc acc' : Option (List Char)} {t : Token Char}
    {out : List (List Char)} (h : textStep name acc t = some (out, acc')) :
    (∀ w ∈ out, w.length + name.length + 3 ≤ (acc.getD []).length + t.source.length) ∧
      (acc'.getD []).length ≤ (acc.getD []).length + t.source.length := by
  cases textStep_cases h with
  | sym acc c => cases acc <;> simp [Token.source]
  | skip acc m => simp
  | opening hname => simp
  | empty hname =>
      rename_i content
      have hlength := length_tagName_le content
      simp only [List.mem_singleton, forall_eq, hname, Option.getD_none, List.length_nil,
        Token.source, Markup.source, List.length_append, List.length_cons] at hlength ⊢
      omega
  | closing text hname =>
      rename_i content
      have hlength := length_tagName_le content
      simp only [List.mem_singleton, forall_eq, hname, Option.getD_none, Option.getD_some,
        List.length_nil, Token.source, Markup.source, List.length_append, List.length_cons]
        at hlength ⊢
      omega

theorem texts_length {acc acc' : Option (List Char)} {ts : List (Token Char)}
    {out : List (List Char)} (h : texts name acc ts = some (out, acc')) :
    ∀ w ∈ out, w.length + name.length + 3 ≤ (acc.getD []).length + (source ts).length := by
  induction ts generalizing acc out with
  | nil =>
      cases h
      simp
  | cons t ts ih =>
      obtain ⟨out₁, acc₁, out₂, hstep, hrest, rfl⟩ := Transducer.run_cons h
      obtain ⟨hout, hacc⟩ := textStep_length hstep
      intro w hw
      rw [source_cons, List.length_append]
      rcases List.mem_append.mp hw with hw | hw
      · have := hout w hw
        omega
      · have := ih hrest w hw
        omega

theorem Markup.source_eq_cons (e : Markup) : e.source = '<' :: e.source.tail := by
  cases e <;> rfl

theorem source_eq_nil {ts : List (Token Char)} (h : source ts = []) : ts = [] := by
  cases ts with
  | nil => rfl
  | cons t ts =>
      rw [source_cons] at h
      obtain ⟨ht, -⟩ := List.append_eq_nil_iff.mp h
      cases t with
      | sym c => cases ht
      | mark m => cases m <;> cases ht

theorem eq_of_length_tagName {content : List Char} (h : content.length ≤ (tagName content).length) :
    content = tagName content :=
  ((List.takeWhile_prefix _).eq_of_length_le h).symm

/-- A text that is as long as what was read is all that was read, up to its
end tag. -/
theorem texts_exact {acc w : List Char} {acc' : Option (List Char)} {ts : List (Token Char)}
    {out : List (List Char)} (h : texts name (some acc) ts = some (w :: out, acc'))
    (hlength : acc.length + (source ts).length ≤ w.length + name.length + 3) :
    ∃ text, w = acc ++ text ∧ ts = text.map .sym ++ [.mark (.endTag name)] := by
  induction ts generalizing acc with
  | nil => cases h
  | cons t ts ih =>
      obtain ⟨out₁, acc₁, out₂, hstep, hrest, hout⟩ := Transducer.run_cons h
      rw [source_cons, List.length_append] at hlength
      cases textStep_cases hstep with
      | sym acc c =>
          rw [List.nil_append] at hout
          obtain ⟨text, hw, hts⟩ := ih (by rw [hout]; exact hrest) (by
            simp only [Token.source, List.length_append, List.length_singleton] at hlength ⊢
            omega)
          refine ⟨c :: text, ?_, ?_⟩
          · rw [hw, List.append_assoc, List.singleton_append]
          · rw [hts, List.map_cons, List.cons_append]
      | skip acc m =>
          -- Markup that does not end the element is longer than nothing.
          rw [List.nil_append] at hout
          have hlong := texts_length hrest w (by rw [← hout]; exact List.mem_cons_self)
          have hpos : 0 < m.source.length := by
            rw [m.source_eq_cons]
            exact Nat.succ_pos _
          simp only [Option.getD_some, Token.source] at hlong hlength
          omega
      | closing text hname =>
          rename_i content
          cases hout
          have hle := length_tagName_le content
          simp only [Token.source, Markup.source, List.length_append, List.length_cons,
            List.length_nil] at hlength
          rw [hname] at hle
          have hcontent : content = name := by
            rw [← hname]
            exact eq_of_length_tagName (by rw [hname]; omega)
          have hts : ts = [] := source_eq_nil (List.length_eq_zero_iff.mp (by omega))
          exact ⟨[], (List.append_nil _).symm, by rw [hts, hcontent]; rfl⟩

theorem textStep_out {acc acc' : Option (List α)} {t : Token α} {out : List (List α)}
    (h : textStep name acc t = some (out, acc')) : out = [] ∨ (∃ w, out = [w]) ∧ acc' = none := by
  cases textStep_cases h with
  | sym acc a => exact .inl rfl
  | skip acc m => exact .inl rfl
  | opening hname => exact .inl rfl
  | empty hname => exact .inr ⟨⟨_, rfl⟩, rfl⟩
  | closing text hname => exact .inr ⟨⟨_, rfl⟩, rfl⟩

/-- Of the texts completed while reading `s`, all but the first lie in `s` with
their tags, and after the end of another. -/
theorem texts_tail_length {m m' : Mode} {s w : List Char} {ts : List (Token Char)}
    {acc acc' : Option (List Char)} {out : List (List Char)} (hrun : run m s = some (ts, m'))
    (h : texts name acc ts = some (w :: out, acc')) :
    ∀ v ∈ out, v.length + name.length + 3 < s.length := by
  induction s generalizing m acc ts with
  | nil =>
      cases hrun
      cases h
  | cons c s ih =>
      obtain ⟨ts₁, m₁, ts₂, hstep, hrest, rfl⟩ := Transducer.run_cons hrun
      obtain ⟨out₁, acc₁, out₂, hfirst, hsecond, hout⟩ := Transducer.run_of_append h
      have hnone : out₁ = [] → ∀ v ∈ out, v.length + name.length + 3 < (c :: s).length := by
        rintro rfl v hv
        rw [List.nil_append] at hout
        have := ih hrest (by rw [hout]; exact hsecond) v hv
        rw [List.length_cons]
        omega
      have hsym : ∀ l : List Char, ts₁ = l.map .sym → out₁ = [] := by
        rintro l rfl
        have htexts : texts name acc (l.map .sym) = _ := texts_sym acc l
        cases htexts.symm.trans hfirst
        rfl
      cases step_cases hstep with
      | plain => exact hnone (hsym [c] rfl)
      | more => exact hnone (hsym [] rfl)
      | shorter => exact hnone (hsym _ rfl)
      | mark hcontent hsource =>
          obtain ⟨out₃, acc₂, out₄, hmark, hnil, rfl⟩ := Transducer.run_cons hfirst
          cases hnil
          rcases textStep_out hmark with rfl | ⟨⟨w', rfl⟩, rfl⟩
          · exact hnone rfl
          · cases hout
            intro v hv
            have hlength := texts_length hsecond v hv
            have hspell := (run_spells hrest).1
            simp only [Option.getD_none, List.length_nil, List.length_append, Mode.source_content,
              List.length_cons] at hlength hspell ⊢
            omega

/-! ## Tags and where they can come from -/

/-- No tag is open. -/
def Mode.settled : Mode → Bool
  | .opened => false
  | .tag _ _ => false
  | .closing _ => false
  | _ => true

theorem tag?_of_mem_map_sym {l : List α} {t : Token α} (h : t ∈ l.map .sym) : t.tag? = none := by
  obtain ⟨a, -, rfl⟩ := List.mem_map.mp h
  rfl

/-- Only text can open a tag. -/
theorem step_settled {m m' : Mode} {c : Char} {ts : List (Token Char)} (hm : m.settled)
    (hc : m.isContent → c ≠ '<') (h : step m c = some (ts, m')) :
    m'.settled ∧ ∀ t ∈ ts, t.tag? = none := by
  unfold step at h
  split at h
  · cases m with
    | content k =>
        simp only [modeStep, contentStep, if_neg (hc rfl)] at h
        split at h
        · cases h; simp [Mode.settled]
        split at h
        · cases h
        · cases h; simp [Mode.settled, Token.tag?, Markup.tag?]
    | reference body =>
        simp only [modeStep, referenceStep] at h
        split at h
        · obtain ⟨a, -, ha⟩ := Option.map_eq_some_iff.mp h
          cases ha; simp [Mode.settled, Token.tag?, Markup.tag?]
        split at h
        · cases h; simp [Mode.settled]
        · cases h
    | opened => cases hm
    | tag body quote => cases hm
    | closing body => cases hm
    | instruction body =>
        simp only [modeStep, instructionStep] at h
        split at h <;> cases h <;> simp [Mode.settled, Token.tag?, Markup.tag?]
    | declaration body =>
        simp only [modeStep, declarationStep] at h
        split at h
        · cases h; simp [Mode.settled]
        split at h
        · cases h; simp [Mode.settled]
        split at h
        · cases h; simp [Mode.settled]
        split at h
        · cases h; simp [Mode.settled]
        · cases h
    | comment body =>
        simp only [modeStep, commentStep] at h
        split at h
        · split at h <;> cases h; simp [Mode.settled, Token.tag?, Markup.tag?]
        · cases h; simp [Mode.settled]
    | cdata body =>
        simp only [modeStep, cdataStep] at h
        split at h
        · cases h
          exact ⟨rfl, fun t ↦ tag?_of_mem_map_sym⟩
        · cases h; simp [Mode.settled]
    | doctype body quote =>
        simp only [modeStep, doctypeStep] at h
        split at h
        · cases h; simp [Mode.settled, Token.tag?, Markup.tag?]
        split at h
        · cases h
        split at h
        · cases h; simp [Mode.settled]
        split at h <;> cases h <;> simp [Mode.settled]
  · cases h

theorem run_settled {m m' : Mode} {s : List Char} {ts : List (Token Char)} (hs : '<' ∉ s)
    (hm : m.settled) (h : run m s = some (ts, m')) : m'.settled ∧ ∀ t ∈ ts, t.tag? = none := by
  refine Transducer.run_induction (P := fun m ↦ m.settled = true)
    (fun c hc m ts m' hm hstep ↦ ?_) hm h
  refine step_settled hm (fun _ hlt ↦ hs ?_) hstep
  rw [← hlt]
  exact hc

/-- Whatever was open before, reading the source of a piece of markup gives
that markup or no tag at all. -/
theorem run_mark {m m' : Mode} {e : Markup} {ts : List (Token Char)} (he : e.Readable)
    (h : run m e.source = some (ts, m')) :
    ts = [.mark e] ∧ m' = .content 0 ∨ m'.settled ∧ ∀ t ∈ ts, t.tag? = none := by
  have hread := he.run_source 0 (Nat.zero_le 2)
  rw [e.source_eq_cons] at h hread
  obtain ⟨ts₁, m₁, ts₂, hstep, hrest, rfl⟩ := Transducer.run_cons h
  have hsealed : m.settled → m.isContent = false →
      m'.settled ∧ ∀ t ∈ ts₁ ++ ts₂, t.tag? = none := by
    intro hm hcontent
    obtain ⟨hm₁, hts₁⟩ := step_settled hm (fun hm' ↦ absurd (hcontent.symm.trans hm') nofun) hstep
    obtain ⟨hm', hts₂⟩ := run_settled he.opensOnce hm₁ hrest
    exact ⟨hm', fun t ht ↦ (List.mem_append.mp ht).elim (hts₁ t) (hts₂ t)⟩
  cases m with
  | content k =>
      -- The number of brackets before markup does not matter.
      have hsame : run (.content k) ('<' :: e.source.tail) =
        run (.content 0) ('<' :: e.source.tail) := rfl
      have heq := Option.some.inj (h.symm.trans (hsame.trans hread))
      exact .inl ⟨congrArg Prod.fst heq, congrArg Prod.snd heq⟩
  | opened => cases hstep
  | tag body quote => cases hstep
  | closing body => cases hstep
  | _ => exact .inr (hsealed rfl rfl)

theorem Spelled.ne_lt {k : ℕ} {ts : List (Token Char)} (h : Spelled k ts) :
    ∀ c, .sym c ∈ ts → c ≠ '<' := by
  induction ts generalizing k with
  | nil => exact fun c hc ↦ absurd hc List.not_mem_nil
  | cons t ts ih =>
      intro c hc
      rcases List.mem_cons.mp hc with rfl | hrest
      · exact h.1
      · cases t with
        | sym a => exact ih h.2.2.2 c hrest
        | mark e => exact ih h c hrest

/-- Tokens that are read as they are written and hold no tag called `name`. -/
structure Frame (name : List Char) (ts : List (Token Char)) : Prop where
  sound : ∀ t ∈ ts, t.Sound
  spelled : Spelled 0 ts
  other : ∀ t ∈ ts, t.tag? ≠ some name

theorem run_source_settled {m m' : Mode} {ts us : List (Token Char)}
    (hsound : ∀ t ∈ ts, t.Sound) (hlt : ∀ c, .sym c ∈ ts → c ≠ '<') (hm : m.settled)
    (h : run m (source ts) = some (us, m')) :
    m'.settled ∧ ∀ u ∈ us, u.tag? = none ∨ u ∈ ts := by
  induction ts generalizing m us with
  | nil =>
      cases h
      exact ⟨hm, fun u hu ↦ absurd hu List.not_mem_nil⟩
  | cons t ts ih =>
      obtain ⟨us₁, m₁, us₂, hfirst, hrest, rfl⟩ := Transducer.run_of_append (source_cons t ts ▸ h)
      have htoken : m₁.settled ∧ ∀ u ∈ us₁, u.tag? = none ∨ u = t := by
        cases t with
        | sym c =>
            have hc : '<' ∉ [c] := fun hmem ↦
              hlt c List.mem_cons_self (List.mem_singleton.mp hmem).symm
            obtain ⟨hm₁, hus₁⟩ := run_settled hc hm hfirst
            exact ⟨hm₁, fun u hu ↦ .inl (hus₁ u hu)⟩
        | mark e =>
            rcases run_mark (hsound _ List.mem_cons_self) hfirst with ⟨rfl, rfl⟩ | ⟨hm₁, hus₁⟩
            · exact ⟨rfl, fun u hu ↦ .inr (List.mem_singleton.mp hu)⟩
            · exact ⟨hm₁, fun u hu ↦ .inl (hus₁ u hu)⟩
      obtain ⟨hm', hus₂⟩ := ih (fun u hu ↦ hsound u (List.mem_cons_of_mem _ hu))
        (fun c hc ↦ hlt c (List.mem_cons_of_mem _ hc)) htoken.1 hrest
      refine ⟨hm', fun u hu ↦ ?_⟩
      rcases List.mem_append.mp hu with hu | hu
      · refine (htoken.2 u hu).imp_right fun heq ↦ ?_
        rw [heq]
        exact List.mem_cons_self
      · exact (hus₂ u hu).imp_right (List.mem_cons_of_mem _)

theorem run_endTag_settled {m m' : Mode} {s : List Char} {ts : List (Token Char)}
    (hend : (Markup.endTag name).Readable)
    (h : run m (s ++ (Markup.endTag name).source) = some (ts, m')) : m'.settled := by
  obtain ⟨ts₁, m₁, ts₂, -, hlast, -⟩ := Transducer.run_of_append h
  rcases run_mark hend hlast with ⟨-, rfl⟩ | ⟨hm', -⟩
  · rfl
  · exact hm'

theorem Frame.opening_tags {m m' : Mode} {ts us : List (Token Char)} (hframe : Frame name ts)
    (hstart : (Markup.startTag name).Readable) (hm : m.settled)
    (h : run m (source (ts ++ [.mark (.startTag name)])) = some (us, m')) :
    ∀ u ∈ us, u.tag? ≠ some name ∨ u = .mark (.startTag name) := by
  intro u hu
  have hsound : ∀ t ∈ ts ++ [.mark (.startTag name)], t.Sound := by
    intro t ht
    rcases List.mem_append.mp ht with ht | ht
    · exact hframe.sound t ht
    · cases List.mem_singleton.mp ht
      exact hstart
  have hlt : ∀ c, .sym c ∈ ts ++ [.mark (.startTag name)] → c ≠ '<' := by
    intro c hc
    rcases List.mem_append.mp hc with hc | hc
    · exact hframe.spelled.ne_lt c hc
    · cases List.mem_singleton.mp hc
  rcases (run_source_settled hsound hlt hm h).2 u hu with hfree | hmem
  · exact .inl fun htag ↦ by cases hfree.symm.trans htag
  · rcases List.mem_append.mp hmem with hmem | hmem
    · exact .inl (hframe.other u hmem)
    · exact .inr (List.mem_singleton.mp hmem)

theorem Frame.run_opening {ts : List (Token Char)} (hframe : Frame name ts)
    (hstart : (Markup.startTag name).Readable) :
    run (.content 0) (source (ts ++ [.mark (.startTag name)])) =
      some (ts ++ [.mark (.startTag name)], .content 0) := by
  obtain ⟨j, hj, hrun⟩ := run_of_spelled (Nat.zero_le 2) hframe.sound hframe.spelled
  rw [source_append, source_cons, source_nil, List.append_nil]
  exact Transducer.run_append hrun (hstart.run_source j hj)

/-- Only the end of an element completes a text. -/
theorem textStep_eq_nil {acc acc' : Option (List α)} {t : Token α} {out : List (List α)}
    (ht : t.tag? ≠ some name ∨ t = .mark (.startTag name))
    (h : textStep name acc t = some (out, acc')) : out = [] := by
  cases textStep_cases h with
  | sym acc a => rfl
  | skip acc m => rfl
  | opening hname => rfl
  | empty hname =>
      rcases ht with ht | ht
      · exact absurd (congrArg some hname) ht
      · cases ht
  | closing text hname =>
      rcases ht with ht | ht
      · exact absurd (congrArg some hname) ht
      · cases ht

theorem texts_eq_nil {acc acc' : Option (List α)} {ts : List (Token α)} {out : List (List α)}
    (hts : ∀ t ∈ ts, t.tag? ≠ some name ∨ t = .mark (.startTag name))
    (h : texts name acc ts = some (out, acc')) : out = [] := by
  have hnone := (Transducer.run_induction (P := fun _ ↦ True) (Q := fun _ ↦ False)
    (fun t ht acc out acc' _ hstep ↦ ⟨trivial, fun b hb ↦ by
      rw [textStep_eq_nil (hts t ht) hstep] at hb
      cases hb⟩) trivial h).2
  exact List.eq_nil_iff_forall_not_mem.mpr hnone

/-! ## Documents in parts -/

/-- Something read as it is written, and the text of the element after it. -/
structure Part where
  before : List (Token Char)
  text : List Char

def Part.tokens (name : List Char) (p : Part) : List (Token Char) :=
  (p.before ++ [.mark (.startTag name)]) ++ (p.text.map .sym ++ [.mark (.endTag name)])

/-- A part as the reader sees it, with single line feeds. -/
def Part.normalized (p : Part) : Part :=
  { p with text := normalizeEol p.text }

def document (name : List Char) (parts : List Part) (after : List (Token Char)) :
    List (Token Char) :=
  parts.flatMap (Part.tokens name) ++ after

theorem document_cons (p : Part) (parts : List Part) (after : List (Token Char)) :
    document name (p :: parts) after = p.tokens name ++ document name parts after := by
  rw [document, List.flatMap_cons, List.append_assoc, document]

theorem source_document_cons (p : Part) (parts : List Part) (after : List (Token Char)) :
    source (document name (p :: parts) after) =
      source (p.before ++ [.mark (.startTag name)]) ++
        ((p.text ++ (Markup.endTag name).source) ++ source (document name parts after)) := by
  simp [document_cons, Part.tokens, source_append, source_sym, Token.source]

theorem texts_opening {ts : List (Token α)} (hname : tagName name = name)
    (hts : ∀ t ∈ ts, t.tag? ≠ some name) :
    texts name none (ts ++ [.mark (.startTag name)]) = some ([], some []) := by
  refine Transducer.run_append (texts_of_other hts) ?_
  simp [Transducer.run, textStep, hname]

theorem texts_closing {acc text : List α} (hname : tagName name = name) :
    texts name (some acc) (text.map .sym ++ [.mark (.endTag name)]) =
      some ([acc ++ text], none) := by
  refine Transducer.run_append (texts_sym _ _) ?_
  simp [Transducer.run, textStep, hname]

theorem texts_document {parts : List Part} {after : List (Token Char)} (hname : tagName name = name)
    (hparts : ∀ p ∈ parts, ∀ t ∈ p.before, t.tag? ≠ some name)
    (hafter : ∀ t ∈ after, t.tag? ≠ some name) :
    texts name none (document name parts after) = some (parts.map Part.text, none) := by
  induction parts with
  | nil => exact texts_of_other hafter
  | cons p parts ih =>
      have hopen := texts_opening hname (hparts p List.mem_cons_self)
      have hclose : texts name (some []) (p.text.map .sym ++ [.mark (.endTag name)]) =
        some ([p.text], none) := texts_closing hname
      rw [document_cons]
      exact Transducer.run_append (Transducer.run_append hopen hclose)
        (ih fun q hq ↦ hparts q (List.mem_cons_of_mem _ hq))

section Faithful

variable {parts : List Part} {after : List (Token Char)} {wanted : List (List Char)}

/-- A reader that is late, with texts to find that should have ended already,
stays late: the texts completed in one part are, but for the first, shorter
than the part's own. -/
theorem texts_ne_of_late {m m' : Mode} {ts : List (Token Char)} {acc acc' : Option (List Char)}
    {late : List (List Char)} (hstart : (Markup.startTag name).Readable)
    (hend : (Markup.endTag name).Readable) (hframes : ∀ p ∈ parts, Frame name p.before)
    (hafter : Frame name after)
    (hwanted : List.Forall₂ (fun p w ↦ p.text.length ≤ w.length) parts wanted)
    (hm : m.settled) (hrun : run m (source (document name parts after)) = some (ts, m'))
    (hlate : late ≠ []) : texts name acc ts ≠ some (late ++ wanted, acc') := by
  intro htexts
  induction hwanted generalizing m ts acc late with
  | nil =>
      obtain ⟨-, htags⟩ := run_source_settled hafter.sound hafter.spelled.ne_lt hm hrun
      have hnone := texts_eq_nil (fun t ht ↦ .inl fun htag ↦ ?_) htexts
      · exact hlate (List.append_eq_nil_iff.mp hnone).1
      · rcases htags t ht with hfree | hmem
        · cases hfree.symm.trans htag
        · exact hafter.other t hmem htag
  | cons hlength hwanted ih =>
      rename_i p w parts wanted
      rw [source_document_cons] at hrun
      obtain ⟨ts₁, m₁, out₁, acc₁, ts₂, out₂, hopen, hout₁, hrun', htexts', heq⟩ :=
        Transducer.run_run_of_append hrun htexts
      obtain ⟨ts₃, m₂, out₃, acc₂, ts₄, out₄, htext, hout₃, hrest, hout₄, rfl⟩ :=
        Transducer.run_run_of_append hrun' htexts'
      have hm₂ : m₂.settled := run_endTag_settled hend htext
      -- No text ends in the markup before the next element.
      have hframe := hframes p List.mem_cons_self
      have hnone : out₁ = [] := texts_eq_nil (hframe.opening_tags hstart hm hopen) hout₁
      rw [hnone, List.nil_append] at heq
      have hrest' : ∀ late : List (List Char), late ≠ [] → late ++ wanted ≠ out₄ := by
        rintro late hne rfl
        exact ih (fun q hq ↦ hframes q (List.mem_cons_of_mem _ hq)) hm₂ hrest hne hout₄
      rcases List.append_eq_append_iff.mp heq with ⟨found, hfound, heq'⟩ | ⟨found, hfound, heq'⟩
      · cases found with
        | nil => exact hrest' [w] (List.cons_ne_nil w []) heq'
        | cons v found =>
            cases heq'
            obtain ⟨first, late, rfl⟩ := List.exists_cons_of_ne_nil hlate
            rw [hfound] at hout₃
            have hshort := texts_tail_length htext hout₃ w
              (List.mem_append_right _ List.mem_cons_self)
            simp only [Markup.source, List.length_append, List.length_cons, List.length_nil]
              at hshort
            omega
      · refine hrest' (found ++ [w]) (by simp) ?_
        rw [List.append_assoc, List.singleton_append, heq']

theorem run_gt_content {m : Mode} {j : ℕ} {s : List Char} {ts : List (Token Char)}
    (h : run m (s ++ ['>']) = some (ts, .content j)) : j = 0 := by
  obtain ⟨ts₁, m₁, ts₂, -, hlast, -⟩ := Transducer.run_of_append h
  obtain ⟨ts₃, m₂, ts₄, hstep, hnil, -⟩ := Transducer.run_cons hlast
  cases hnil
  cases step_cases hstep with
  | plain => rfl
  | more hcontent => cases hcontent
  | mark => rfl
  | shorter => rfl

/-- An element is read up to its end tag and gives a text at least as long as
what stands between its tags only if that is the text. -/
theorem text_exact {m' : Mode} {text w : List Char} {ts : List (Token Char)}
    {acc' : Option (List Char)} {out : List (List Char)} (hname : tagName name = name)
    (hlength : text.length ≤ w.length)
    (hrun : run (.content 0) (text ++ (Markup.endTag name).source) = some (ts, m'))
    (htexts : texts name (some []) ts = some (w :: out, acc')) :
    text = w ∧ Spelled 0 (text.map .sym) ∧ m' = .content 0 ∧ (out, acc') = ([], none) := by
  have hsource : (Markup.endTag name).source = ['<', '/'] ++ name ++ ['>'] := rfl
  obtain ⟨hle, hspelled⟩ := run_spells hrun
  have hge := texts_length htexts w List.mem_cons_self
  simp only [hsource, Mode.source_content, List.nil_append, List.length_append, List.length_cons,
    List.length_nil, Option.getD_some] at hle hge hspelled
  obtain ⟨read, hw, hts⟩ := texts_exact htexts (by simp only [List.length_nil]; omega)
  obtain ⟨hspell, hall⟩ := hspelled (by omega)
  rw [List.nil_append] at hw
  subst hw
  have hm' : m'.source = [] := List.length_eq_zero_iff.mp (by omega)
  have htext : text = w := by
    rw [hts, hm', source_append, source_sym] at hspell
    simpa [Token.source, hsource] using hspell.symm
  subst htext
  refine ⟨rfl, ?_, ?_, ?_⟩
  · have hboth := hall 0 fun j hj ↦ by cases hj; rfl
    rw [hts] at hboth
    exact (spelled_append.mp hboth).1
  · cases m' with
    | content j =>
        rw [hsource, ← List.append_assoc] at hrun
        have hj : j = 0 := run_gt_content hrun
        rw [hj]
    | _ => cases hm'
  · rw [hts, texts_closing hname] at htexts
    cases htexts
    rfl

/-- Finding the texts that were meant, none of which is shorter than what was
written, means that each was written as it is. -/
theorem spelled_of_texts {m' : Mode} {ts : List (Token Char)} {acc' : Option (List Char)}
    (hname : tagName name = name) (hstart : (Markup.startTag name).Readable)
    (hend : (Markup.endTag name).Readable) (hframes : ∀ p ∈ parts, Frame name p.before)
    (hafter : Frame name after)
    (hwanted : List.Forall₂ (fun p w ↦ p.text.length ≤ w.length) parts wanted)
    (hrun : run (.content 0) (source (document name parts after)) = some (ts, m'))
    (htexts : texts name none ts = some (wanted, acc')) :
    List.Forall₂ (fun p w ↦ p.text = w ∧ Spelled 0 (p.text.map .sym)) parts wanted := by
  induction hwanted generalizing ts with
  | nil => exact .nil
  | cons hlength hwanted ih =>
      rename_i p w parts wanted
      rw [source_document_cons] at hrun
      obtain ⟨ts₁, m₁, out₁, acc₁, ts₂, out₂, hopen, hout₁, hrun', htexts', heq⟩ :=
        Transducer.run_run_of_append hrun htexts
      obtain ⟨ts₃, m₂, out₃, acc₂, ts₄, out₄, htext, hout₃, hrest, hout₄, rfl⟩ :=
        Transducer.run_run_of_append hrun' htexts'
      have hframe := hframes p List.mem_cons_self
      have hframes' : ∀ q ∈ parts, Frame name q.before := fun q hq ↦
        hframes q (List.mem_cons_of_mem _ hq)
      cases (hframe.run_opening hstart).symm.trans hopen
      cases (texts_opening hname hframe.other).symm.trans hout₁
      rw [List.nil_append] at heq
      cases out₃ with
      | nil =>
          have hm₂ : m₂.settled := run_endTag_settled hend htext
          have hlate : texts name acc₂ ts₄ = some ([w] ++ wanted, acc') := by
            rw [List.singleton_append, heq]
            exact hout₄
          exact absurd hlate (texts_ne_of_late hstart hend hframes' hafter hwanted hm₂ hrest
            (List.cons_ne_nil w []))
      | cons v out₃ =>
          cases heq
          obtain ⟨hw, hspelled, rfl, hrest₃⟩ := text_exact hname hlength htext hout₃
          cases hrest₃
          exact .cons ⟨hw, hspelled⟩ (ih hframes' hrest hout₄)

theorem normalizeEol_document (hend : (Markup.endTag name).Readable)
    (hstart : (Markup.startTag name).Readable) (hframes : ∀ p ∈ parts, Frame name p.before)
    (hafter : Frame name after) :
    normalizeEol (source (document name parts after)) =
      source (document name (parts.map Part.normalized) after) := by
  induction parts with
  | nil => exact normalizeEol_of_not_mem (not_mem_source hafter.sound)
  | cons p parts ih =>
      have hframe := hframes p List.mem_cons_self
      have hopen : '\r' ∉ source (p.before ++ [.mark (.startTag name)]) := by
        rw [source_append, List.mem_append, not_or, source_cons, source_nil, List.append_nil]
        exact ⟨not_mem_source hframe.sound, hstart.noReturn⟩
      have hrest := ih fun q hq ↦ hframes q (List.mem_cons_of_mem _ hq)
      rw [List.map_cons, source_document_cons, source_document_cons, ← hrest,
        normalizeEol_append_of_not_mem hopen, List.append_assoc, List.append_assoc,
        normalizeEol_append (by simp [Markup.source]), normalizeEol_append_of_not_mem hend.noReturn]
      rfl

/-- The texts of the elements are what was written between their tags only if
all of it can be written as it is. -/
theorem plain_of_elementTexts {ts : List (Token Char)}
    (hname : tagName name = name) (hstart : (Markup.startTag name).Readable)
    (hend : (Markup.endTag name).Readable) (hframes : ∀ p ∈ parts, Frame name p.before)
    (hafter : Frame name after) (hread : read (source (document name parts after)) = some ts)
    (htexts : elementTexts name ts = some (parts.map Part.text)) :
    ∀ p ∈ parts, Plain p.text := by
  obtain ⟨⟨us, m'⟩, hrun, hcontent⟩ := Option.bind_eq_some_iff.mp hread
  obtain ⟨⟨out, acc⟩, hout, hclosed⟩ := Option.bind_eq_some_iff.mp htexts
  split at hcontent
  · cases hcontent
    split at hclosed
    · cases hclosed
      rw [normalizeEol_document hend hstart hframes hafter] at hrun
      have hlength : List.Forall₂ (fun p w ↦ p.text.length ≤ w.length)
          (parts.map Part.normalized) (parts.map Part.text) := by
        rw [List.forall₂_map_left_iff, List.forall₂_map_right_iff, List.forall₂_same]
        exact fun p _ ↦ normalizeEol_length_le p.text
      have hframes' : ∀ p ∈ parts.map Part.normalized, Frame name p.before := by
        intro q hq
        obtain ⟨p, hp, rfl⟩ := List.mem_map.mp hq
        exact hframes p hp
      have hspelled := spelled_of_texts hname hstart hend hframes' hafter hlength hrun hout
      rw [List.forall₂_map_left_iff, List.forall₂_map_right_iff, List.forall₂_same] at hspelled
      intro p hp
      obtain ⟨hsame, hplain⟩ := hspelled p hp
      have hsame' : normalizeEol p.text = p.text := hsame
      refine ⟨?_, ?_⟩
      · rw [← hsame']
        exact hplain
      · rw [← hsame']
        exact not_mem_normalizeEol p.text
    · cases hclosed
  · cases hcontent

end Faithful

end Xml
