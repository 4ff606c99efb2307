import PrototypeNet.Lib.XmlTexts

/-!
# Well-formed documents and templates

A document is well formed if its tags are and match, with one element around
everything but comments, instructions, blanks and the document type.  (A blank
written as a reference outside that element is not told apart from a blank.)

A template is a text with gaps.  If each piece of text is markup and text that
is read as written, what holds of the template's own tokens holds however the
gaps in it are filled.
-/

namespace Xml

/-! ## Well-formedness -/

def isName : List Char → Bool
  | [] => false
  | c :: s => isNameStart c && s.all isNameChar

def afterBlanks : List Char → Option (List Char)
  | [] => none
  | c :: s => if isBlank c then some (s.dropWhile isBlank) else none

/-- A quoted value and what follows it. -/
def quoted : List Char → Option (List Char × List Char)
  | [] => none
  | q :: s =>
      if isQuote q then
        match s.dropWhile (· ≠ q) with
        | [] => none
        | _ :: rest => some (s.takeWhile (· ≠ q), rest)
      else none

def valueStep : Option (List Char) → Char → Option (Option (List Char))
  | none, c => some (if c = '&' then some [] else none)
  | some name, c => if c = ';' then (resolve name).map fun _ ↦ none else some (some (name ++ [c]))

/-- All references in an attribute's value can be resolved. -/
def isValue (s : List Char) : Bool :=
  s.foldlM valueStep none == some none

/-- The names of the attributes in a tag, each after a blank. -/
def attributes : ℕ → List Char → Option (List (List Char))
  | 0, _ => none
  | fuel + 1, s =>
      if s.all isBlank then some [] else
        (afterBlanks s).bind fun s ↦
          let name := tagName s
          match (s.drop name.length).dropWhile isBlank with
          | '=' :: rest =>
              (quoted (rest.dropWhile isBlank)).bind fun value ↦
                if isName name ∧ isValue value.1 then
                  (attributes fuel value.2).map fun names ↦ name :: names
                else none
          | _ => none

def tagAttributes (content : List Char) : Option (List (List Char)) :=
  attributes (content.length + 1) (content.drop (tagName content).length)

def isTag (content : List Char) : Bool :=
  isName (tagName content) && (tagAttributes content).any fun names ↦ decide names.Nodup

def isEndTag (content : List Char) : Bool :=
  isName (tagName content) && (content.drop (tagName content).length).all isBlank

def isInstruction (content : List Char) : Bool :=
  isName (tagName content) && decide ((tagName content).map Char.toLower ≠ ['x', 'm', 'l'])

/-- The declaration that a document may start with. -/
def isDeclaration (content : List Char) : Bool :=
  decide (tagName content = "xml".toList) &&
    (tagAttributes content).any fun names ↦
      decide (names ∈ [["version"], ["version", "encoding"], ["version", "standalone"],
        ["version", "encoding", "standalone"]].map fun names ↦ names.map String.toList)

/-- A system identifier, or a public one and a system one. -/
def isExternalId (s : List Char) : Bool :=
  let systemId := fun s ↦
    ((afterBlanks s).bind quoted).any fun literal ↦ literal.2.all isBlank
  if "SYSTEM".toList.isPrefixOf s then systemId (s.drop 6)
  else if "PUBLIC".toList.isPrefixOf s then
    ((afterBlanks (s.drop 6)).bind quoted).any fun literal ↦ systemId literal.2
  else false

def isDoctype (content : List Char) : Bool :=
  (afterBlanks content).any fun s ↦
    let name := tagName s
    let rest := s.drop name.length
    isName name && (rest.all isBlank || (afterBlanks rest).any isExternalId)

/-- Where in a document the reader is; in the prolog, whether anything came
before and whether the document type has been declared. -/
inductive Place
  | prolog (first declared : Bool)
  | inside (name : List Char) (outer : List (List Char))
  | epilog
  deriving DecidableEq, Repr

def Place.opened : Place → List (List Char)
  | .inside name outer => name :: outer
  | _ => []

def Place.ofOpened : List (List Char) → Place
  | [] => .epilog
  | name :: outer => .inside name outer

def markStep : Place → Markup → Option Place
  | .prolog _ declared, .comment _ => some (.prolog false declared)
  | place, .comment _ => some place
  | .prolog first declared, .instruction content =>
      if first && isDeclaration content || isInstruction content then
        some (.prolog false declared)
      else none
  | place, .instruction content => if isInstruction content then some place else none
  | .prolog _ false, .doctype content =>
      if isDoctype content then some (.prolog false true) else none
  | _, .doctype _ => none
  | .epilog, .startTag _ => none
  | place, .startTag content =>
      if isTag content then some (.inside (tagName content) place.opened) else none
  | .epilog, .emptyTag _ => none
  | place, .emptyTag content => if isTag content then some (.ofOpened place.opened) else none
  | .inside name outer, .endTag content =>
      if isEndTag content ∧ tagName content = name then some (.ofOpened outer) else none
  | _, .endTag _ => none

def symStep (blank : Bool) : Place → Option Place
  | .prolog _ declared => if blank then some (.prolog false declared) else none
  | .epilog => if blank then some .epilog else none
  | place => some place

def nestStep {α : Type} (blank : α → Bool) : Place → Token α → Option Place
  | place, .sym a => symStep (blank a) place
  | place, .mark m => markStep place m

def wellFormed (ts : List (Token Char)) : Bool :=
  ts.foldlM (nestStep isBlank) (.prolog true false) == some .epilog

example : (read "<a x='1'>]]&gt;<b/></a>".toList).any wellFormed = true := by decide

example : (read "<a><b></a></b>".toList).any wellFormed = false := by decide

/-! ## Templates -/

variable {φ : Type}

inductive Piece (φ : Type)
  | text (s : List Char)
  | gap (f : φ)
  deriving DecidableEq, Repr

/-- A template with its gaps filled. -/
def fill (env : φ → List Char) (ps : List (Piece φ)) : List Char :=
  ps.flatMap fun
    | .text s => s
    | .gap f => env f

/-- The tokens of a piece of text that starts and ends outside markup. -/
def lex (s : List Char) : List (Token Char) :=
  ((run (.content 0) s).map Prod.fst).getD []

def Token.map {α β : Type} (f : α → β) : Token α → Token β
  | .sym a => .sym (f a)
  | .mark m => .mark m

/-- The tokens of a template, where a gap counts as a single symbol. -/
def shape (ps : List (Piece φ)) : List (Token (Char ⊕ φ)) :=
  ps.flatMap fun
    | .text s => (lex s).map (Token.map Sum.inl)
    | .gap f => [.sym (.inr f)]

def fillSym (env : φ → List Char) : Char ⊕ φ → List Char :=
  Sum.elim (fun c ↦ [c]) env

def fillToken (env : φ → List Char) : Token (Char ⊕ φ) → List (Token Char)
  | .sym a => (fillSym env a).map .sym
  | .mark m => [.mark m]

def tokens (env : φ → List Char) (ps : List (Piece φ)) : List (Token Char) :=
  (shape ps).flatMap (fillToken env)

def gapBlank : Char ⊕ φ → Bool :=
  Sum.elim isBlank fun _ ↦ false

theorem fillToken_map_inl (env : φ → List Char) (ts : List (Token Char)) :
    (ts.map (Token.map Sum.inl)).flatMap (fillToken env) = ts := by
  induction ts with
  | nil => rfl
  | cons t ts ih =>
      rw [List.map_cons, List.flatMap_cons, ih]
      cases t <;> rfl

@[simp] theorem tokens_nil (env : φ → List Char) : tokens env [] = [] := rfl

theorem tokens_append (env : φ → List Char) (ps qs : List (Piece φ)) :
    tokens env (ps ++ qs) = tokens env ps ++ tokens env qs := by
  simp [tokens, shape]

@[simp] theorem tokens_text (env : φ → List Char) (s : List Char) (ps : List (Piece φ)) :
    tokens env (.text s :: ps) = lex s ++ tokens env ps := by
  rw [tokens, shape, List.flatMap_cons, List.flatMap_append, fillToken_map_inl]
  rfl

@[simp] theorem tokens_gap (env : φ → List Char) (f : φ) (ps : List (Piece φ)) :
    tokens env (.gap f :: ps) = (env f).map .sym ++ tokens env ps := rfl

/-- A gap that is accepted at a place may hold anything there. -/
theorem symStep_gap {place place' : Place} (h : symStep false place = some place') (blank : Bool) :
    place' = place ∧ symStep blank place = some place := by
  cases place with
  | prolog first declared => cases h
  | inside name outer =>
      cases h
      exact ⟨rfl, rfl⟩
  | epilog => cases h

theorem nest_fill (env : φ → List Char) {ts : List (Token (Char ⊕ φ))} {place place' : Place}
    (h : ts.foldlM (nestStep gapBlank) place = some place') :
    (ts.flatMap (fillToken env)).foldlM (nestStep isBlank) place = some place' := by
  induction ts generalizing place with
  | nil => exact h
  | cons t ts ih =>
      rw [List.foldlM_cons] at h
      obtain ⟨next, hstep, hrest⟩ := Option.bind_eq_some_iff.mp h
      rw [List.flatMap_cons, List.foldlM_append]
      suffices hfirst : (fillToken env t).foldlM (nestStep isBlank) place = some next by
        rw [hfirst]
        exact ih hrest
      cases t with
      | mark m =>
          exact Option.bind_eq_some_iff.mpr ⟨next, hstep, rfl⟩
      | sym a =>
          cases a with
          | inl c =>
              exact Option.bind_eq_some_iff.mpr ⟨next, hstep, rfl⟩
          | inr f =>
              obtain ⟨rfl, -⟩ := symStep_gap hstep true
              have hany : ∀ text : List Char,
                  (text.map Token.sym).foldlM (nestStep isBlank) next = some next := by
                intro text
                induction text with
                | nil => rfl
                | cons c text ih' =>
                    rw [List.map_cons, List.foldlM_cons]
                    exact Option.bind_eq_some_iff.mpr ⟨next, (symStep_gap hstep _).2, ih'⟩
              exact hany (env f)

theorem textStep_fill (name : List Char) (env : φ → List Char) (m : Markup)
    (acc : Option (List (Char ⊕ φ))) :
    textStep name (acc.map (List.flatMap (fillSym env))) (.mark m) =
      (textStep name acc (.mark m)).map fun next ↦
        (next.1.map (List.flatMap (fillSym env)), next.2.map (List.flatMap (fillSym env))) := by
  cases m with
  | instruction content => cases acc <;> rfl
  | doctype content => cases acc <;> rfl
  | comment content => cases acc <;> rfl
  | startTag content =>
      cases acc with
      | none => by_cases hname : tagName content = name <;> simp [textStep, hname]
      | some text => rfl
  | emptyTag content =>
      cases acc with
      | none => by_cases hname : tagName content = name <;> simp [textStep, hname]
      | some text => rfl
  | endTag content =>
      cases acc with
      | none => rfl
      | some text => by_cases hname : tagName content = name <;> simp [textStep, hname]

/-- The texts of a template's elements, filled, are those of the filled
template. -/
theorem texts_fill (name : List Char) (env : φ → List Char) (ts : List (Token (Char ⊕ φ)))
    (acc : Option (List (Char ⊕ φ))) :
    texts name (acc.map (List.flatMap (fillSym env))) (ts.flatMap (fillToken env)) =
      (texts name acc ts).map fun final ↦
        (final.1.map (List.flatMap (fillSym env)), final.2.map (List.flatMap (fillSym env))) := by
  induction ts generalizing acc with
  | nil => rfl
  | cons t ts ih =>
      cases t with
      | sym a =>
          have hfill : texts name (acc.map (List.flatMap (fillSym env)))
              (fillToken env (.sym a)) =
              some ([], (acc.map (· ++ [a])).map (List.flatMap (fillSym env))) := by
            rw [fillToken, texts_sym]
            cases acc <;> simp
          rw [List.flatMap_cons, texts_append hfill, texts_cons (textStep_sym acc a), ih,
            Option.map_map, Option.map_map]
          rfl
      | mark m =>
          rw [List.flatMap_cons, fillToken, List.singleton_append]
          have hfill := textStep_fill name env m acc
          cases hstep : textStep name acc (.mark m) with
          | none =>
              rw [hstep] at hfill
              simp [texts, Transducer.run, hstep, hfill]
          | some next =>
              rw [hstep] at hfill
              rw [texts_cons hstep, texts_cons hfill, ih, Option.map_map, Option.map_map]
              simp [Function.comp_def]

/-! ## Text that is ready for a template -/

def decidableSpelled : (k : ℕ) → (ts : List (Token Char)) → Decidable (Spelled k ts)
  | _, [] => .isTrue trivial
  | _, .mark _ :: ts => decidableSpelled 0 ts
  | k, .sym c :: ts =>
      have := decidableSpelled (nextBrackets k c) ts
      inferInstanceAs (Decidable (_ ∧ _ ∧ _ ∧ _))

instance (k : ℕ) (ts : List (Token Char)) : Decidable (Spelled k ts) :=
  decidableSpelled k ts

/-- A piece of text is read as written, whatever stands before it, and leaves
nothing open for what follows. -/
def Ready (s : List Char) : Prop :=
  source (lex s) = s ∧ (∀ t ∈ lex s, t.Sound) ∧
    ∀ k ≤ 2, Spelled k (lex s) ∧ brackets k (lex s) = 0

instance (s : List Char) : Decidable (Ready s) :=
  inferInstanceAs (Decidable (_ ∧ _ ∧ _))

def Piece.Ready : Piece φ → Prop
  | .text s => Xml.Ready s
  | .gap _ => True

def Piece.decidableReady : (p : Piece φ) → Decidable p.Ready
  | .text s => inferInstanceAs (Decidable (Xml.Ready s))
  | .gap _ => .isTrue trivial

instance (p : Piece φ) : Decidable p.Ready :=
  p.decidableReady

/-- No two gaps are next to each other. -/
def spaced : List (Piece φ) → Bool
  | .gap _ :: .gap _ :: _ => false
  | _ :: ps => spaced ps
  | [] => true

theorem spaced_text {s : List Char} {ps : List (Piece φ)} (h : spaced (.text s :: ps)) :
    spaced ps := by
  simpa [spaced] using h

theorem spaced_gap {f : φ} {ps : List (Piece φ)} (h : spaced (.gap f :: ps)) :
    spaced ps ∧ ∀ g, ps.head? ≠ some (.gap g) := by
  cases ps with
  | nil => exact ⟨rfl, nofun⟩
  | cons p ps =>
      cases p with
      | text s => exact ⟨by simpa [spaced] using h, nofun⟩
      | gap g => cases h

theorem source_tokens {ps : List (Piece φ)} (hready : ∀ p ∈ ps, p.Ready) (env : φ → List Char) :
    source (tokens env ps) = fill env ps := by
  induction ps with
  | nil => rfl
  | cons p ps ih =>
      have hrest := ih fun q hq ↦ hready q (List.mem_cons_of_mem _ hq)
      have hfirst := hready p List.mem_cons_self
      cases p with
      | text s =>
          rw [tokens_text, source_append, hfirst.1, hrest]
          rfl
      | gap f =>
          rw [tokens_gap, source_append, source_sym, hrest]
          rfl

theorem sound_tokens {env : φ → List Char} {ps : List (Piece φ)} (hready : ∀ p ∈ ps, p.Ready)
    (henv : ∀ f, .gap f ∈ ps → ∀ c ∈ env f, isLegal c ∧ c ≠ '\r') :
    ∀ t ∈ tokens env ps, t.Sound := by
  induction ps with
  | nil => exact fun t ht ↦ absurd ht List.not_mem_nil
  | cons p ps ih =>
      have hrest := ih (fun q hq ↦ hready q (List.mem_cons_of_mem _ hq))
        fun f hf ↦ henv f (List.mem_cons_of_mem _ hf)
      have hfirst := hready p List.mem_cons_self
      intro t ht
      cases p with
      | text s =>
          rw [tokens_text, List.mem_append] at ht
          exact ht.elim (hfirst.2.1 t) (hrest t)
      | gap f =>
          rw [tokens_gap, List.mem_append] at ht
          rcases ht with ht | ht
          · obtain ⟨c, hc, rfl⟩ := List.mem_map.mp ht
            exact henv f List.mem_cons_self c hc
          · exact hrest t ht

/-- A template whose gaps are filled with plain texts is read as written. -/
theorem spelled_tokens {env : φ → List Char} {ps : List (Piece φ)} {k : ℕ}
    (hready : ∀ p ∈ ps, p.Ready) (hspaced : spaced ps)
    (hplain : ∀ f, .gap f ∈ ps → Spelled 0 ((env f).map .sym)) (hk : k ≤ 2)
    (hstart : k = 0 ∨ ∀ f, ps.head? ≠ some (.gap f)) : Spelled k (tokens env ps) := by
  induction ps generalizing k with
  | nil => exact trivial
  | cons p ps ih =>
      have hrest := fun {k : ℕ} (hsp : spaced ps) ↦ ih (k := k)
        (fun q hq ↦ hready q (List.mem_cons_of_mem _ hq)) hsp
        fun f hf ↦ hplain f (List.mem_cons_of_mem _ hf)
      have hfirst := hready p List.mem_cons_self
      cases p with
      | text s =>
          obtain ⟨hspelled, hbrackets⟩ := hfirst.2.2 k hk
          rw [tokens_text, spelled_append, hbrackets]
          exact ⟨hspelled, hrest (spaced_text hspaced) (Nat.zero_le 2) (.inl rfl)⟩
      | gap f =>
          -- The text before a gap leaves no brackets; the one after it may find some.
          obtain rfl : k = 0 := hstart.resolve_right fun h ↦ h f rfl
          rw [tokens_gap, spelled_append]
          obtain ⟨hspaced', hnext⟩ := spaced_gap hspaced
          exact ⟨hplain f List.mem_cons_self, hrest hspaced' (brackets_le hk _) (.inr hnext)⟩

theorem tag?_tokens {name : List Char} {ps : List (Piece φ)}
    (h : ∀ t ∈ shape ps, t.tag? ≠ some name) (env : φ → List Char) :
    ∀ t ∈ tokens env ps, t.tag? ≠ some name := by
  intro t ht
  obtain ⟨u, hu, htu⟩ := List.mem_flatMap.mp ht
  cases u with
  | sym a =>
      rw [tag?_of_mem_map_sym htu]
      nofun
  | mark m =>
      cases List.mem_singleton.mp htu
      exact h (.mark m) hu

theorem frame_tokens {name : List Char} {env : φ → List Char} {ps : List (Piece φ)}
    (hready : ∀ p ∈ ps, p.Ready) (hspaced : spaced ps) (hother : ∀ t ∈ shape ps, t.tag? ≠ some name)
    (hgaps : ∀ f, .gap f ∈ ps → Plain (env f) ∧ ∀ c ∈ env f, isLegal c) :
    Frame name (tokens env ps) where
  sound := sound_tokens hready fun f hf c hc ↦
    ⟨(hgaps f hf).2 c hc, fun hcr ↦ (hgaps f hf).1.2 (hcr ▸ hc)⟩
  spelled := spelled_tokens hready hspaced (fun f hf ↦ (hgaps f hf).1.1) (Nat.zero_le 2) (.inl rfl)
  other := tag?_tokens hother env

theorem elementTexts_tokens (name : List Char) (env : φ → List Char) (ps : List (Piece φ)) :
    elementTexts name (tokens env ps) =
      (elementTexts name (shape ps)).map fun out ↦ out.map (List.flatMap (fillSym env)) := by
  have hfill := texts_fill name env (shape ps) none
  rw [Option.map_none] at hfill
  rw [elementTexts, elementTexts, tokens, hfill]
  cases texts name none (shape ps) with
  | none => rfl
  | some final =>
      obtain ⟨out, acc⟩ := final
      cases acc <;> rfl

theorem wellFormed_tokens {ps : List (Piece φ)} (env : φ → List Char)
    (h : (shape ps).foldlM (nestStep gapBlank) (.prolog true false) = some .epilog) :
    wellFormed (tokens env ps) := by
  rw [wellFormed, tokens, nest_fill env h]
  rfl

/-! ## Templates with an element of one name in each entry -/

/-- What stands before an element, and its text. -/
structure Entry (φ : Type) where
  before : List (Piece φ)
  text : List (Piece φ)

def Entry.pieces (name : List Char) (e : Entry φ) : List (Piece φ) :=
  (e.before ++ [.text (Markup.startTag name).source]) ++
    (e.text ++ [.text (Markup.endTag name).source])

def template (name : List Char) (entries : List (Entry φ)) (rest : List (Piece φ)) :
    List (Piece φ) :=
  entries.flatMap (Entry.pieces name) ++ rest

def Entry.part (env : φ → List Char) (e : Entry φ) : Part where
  before := tokens env e.before
  text := fill env e.text

/-- A piece of text without markup. -/
def Piece.IsText : Piece φ → Prop
  | .text s => lex s = s.map .sym
  | .gap _ => True

def Piece.decidableIsText : (p : Piece φ) → Decidable p.IsText
  | .text s => inferInstanceAs (Decidable (lex s = s.map .sym))
  | .gap _ => .isTrue trivial

instance (p : Piece φ) : Decidable p.IsText :=
  p.decidableIsText

/-- What has to be checked once for a template: it is read as written around
its gaps, and only the entries' own elements have the name. -/
structure Checked (name : List Char) (entries : List (Entry φ)) (rest : List (Piece φ)) : Prop where
  tagName_eq : tagName name = name
  startTag : (Markup.startTag name).Readable
  endTag : (Markup.endTag name).Readable
  ready : ∀ p ∈ template name entries rest, p.Ready
  spaced : spaced (template name entries rest)
  entry : ∀ e ∈ entries, Xml.spaced e.before ∧ (∀ t ∈ shape e.before, t.tag? ≠ some name) ∧
    ∀ p ∈ e.text, p.IsText
  rest : Xml.spaced rest ∧ ∀ t ∈ shape rest, t.tag? ≠ some name

theorem tokens_of_isText {ps : List (Piece φ)} (h : ∀ p ∈ ps, p.IsText) (env : φ → List Char) :
    tokens env ps = (fill env ps).map .sym := by
  induction ps with
  | nil => rfl
  | cons p ps ih =>
      have hrest := ih fun q hq ↦ h q (List.mem_cons_of_mem _ hq)
      have hfirst := h p List.mem_cons_self
      rw [fill, List.flatMap_cons, List.map_append]
      cases p with
      | text s =>
          rw [tokens_text, hrest, show lex s = _ from hfirst]
          rfl
      | gap f =>
          rw [tokens_gap, hrest]
          rfl

theorem lex_source {m : Markup} (hm : m.Readable) : lex m.source = [.mark m] := by
  rw [lex, hm.run_source 0 (Nat.zero_le 2)]
  rfl

section Checked

variable {name : List Char} {entries : List (Entry φ)} {rest : List (Piece φ)}

theorem Checked.tokens_eq (h : Checked name entries rest) (env : φ → List Char) :
    tokens env (template name entries rest) =
      document name (entries.map (Entry.part env)) (tokens env rest) := by
  have hentries : ∀ es : List (Entry φ), (∀ e ∈ es, ∀ p ∈ e.text, p.IsText) →
      tokens env (es.flatMap (Entry.pieces name)) =
        (es.map (Entry.part env)).flatMap (Part.tokens name) := by
    intro es hes
    induction es with
    | nil => rfl
    | cons e es ih =>
        rw [List.flatMap_cons, tokens_append, ih fun e' he ↦ hes e' (List.mem_cons_of_mem _ he),
          List.map_cons, List.flatMap_cons, Entry.pieces, tokens_append, tokens_append,
          tokens_append, tokens_of_isText (hes e List.mem_cons_self)]
        simp [Part.tokens, Entry.part, lex_source h.startTag, lex_source h.endTag]
  rw [template, tokens_append, hentries entries fun e he ↦ (h.entry e he).2.2, document]

theorem Checked.elementTexts_eq (h : Checked name entries rest) (env : φ → List Char) :
    elementTexts name (tokens env (template name entries rest)) =
      some (entries.map fun e ↦ fill env e.text) := by
  have hother : ∀ p ∈ entries.map (Entry.part env), ∀ t ∈ p.before, t.tag? ≠ some name := by
    intro p hp
    obtain ⟨e, he, rfl⟩ := List.mem_map.mp hp
    exact tag?_tokens (h.entry e he).2.1 env
  rw [h.tokens_eq, elementTexts, texts_document h.tagName_eq hother (tag?_tokens h.rest.2 env),
    List.map_map]
  rfl

/-- A template filled with plain texts is read as its tokens. -/
theorem Checked.read_fill (h : Checked name entries rest) {env : φ → List Char}
    (hgaps : ∀ f, Plain (env f) ∧ ∀ c ∈ env f, isLegal c) :
    read (fill env (template name entries rest)) =
      some (tokens env (template name entries rest)) := by
  have hsound : ∀ t ∈ tokens env (template name entries rest), t.Sound :=
    sound_tokens h.ready fun f _ c hc ↦
      ⟨(hgaps f).2 c hc, fun hcr ↦ (hgaps f).1.2 (hcr ▸ hc)⟩
  have hspelled : Spelled 0 (tokens env (template name entries rest)) :=
    spelled_tokens h.ready h.spaced (fun f _ ↦ (hgaps f).1.1) (Nat.zero_le 2) (.inl rfl)
  rw [← source_tokens h.ready]
  exact read_of_spelled hsound hspelled

/-- The elements of a filled template have the texts that were filled in only
if these can be written as they are. -/
theorem Checked.plain_of_read (h : Checked name entries rest) {env : φ → List Char}
    {ts : List (Token Char)}
    (hgaps : ∀ f, (.gap f ∈ rest ∨ ∃ e ∈ entries, .gap f ∈ e.before) →
      Plain (env f) ∧ ∀ c ∈ env f, isLegal c)
    (hread : read (fill env (template name entries rest)) = some ts)
    (htexts : elementTexts name ts = some (entries.map fun e ↦ fill env e.text)) :
    ∀ e ∈ entries, Plain (fill env e.text) := by
  have hready : ∀ e ∈ entries, ∀ p ∈ e.before, p.Ready := fun e he p hp ↦
    h.ready p (List.mem_append_left _ (List.mem_flatMap.mpr
      ⟨e, he, List.mem_append_left _ (List.mem_append_left _ hp)⟩))
  have hframes : ∀ p ∈ entries.map (Entry.part env), Frame name p.before := by
    intro p hp
    obtain ⟨e, he, rfl⟩ := List.mem_map.mp hp
    exact frame_tokens (hready e he) (h.entry e he).1 (h.entry e he).2.1 fun f hf ↦
      hgaps f (.inr ⟨e, he, hf⟩)
  have hrest : Frame name (tokens env rest) :=
    frame_tokens (fun p hp ↦ h.ready p (List.mem_append_right _ hp)) h.rest.1 h.rest.2 fun f hf ↦
      hgaps f (.inl hf)
  rw [← source_tokens h.ready, h.tokens_eq] at hread
  have htexts' : elementTexts name ts =
      some ((entries.map (Entry.part env)).map Part.text) := by
    rw [htexts, List.map_map]
    rfl
  have hplain := plain_of_elementTexts h.tagName_eq h.startTag h.endTag hframes hrest hread htexts'
  exact fun e he ↦ hplain (e.part env) (List.mem_map_of_mem he)

end Checked

end Xml
