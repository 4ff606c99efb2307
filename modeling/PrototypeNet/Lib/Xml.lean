import PrototypeNet.Lib.Transducer

/-!
# Reading XML

A document is read one character at a time into tokens: single characters of
text, with references and character data sections resolved, and pieces of
markup with what stands inside them.  Document type declarations with an
internal subset are not supported.  The reader never makes more of a document
than was there: the tokens spell at most as many characters as were read, and
as many only if every character of text was written as itself.  Nesting and
the syntax of tags are checked on the tokens.
-/

namespace Xml

/-! ## Characters -/

def isLegal (c : Char) : Bool :=
  let n := c.toNat
  decide (0x20 ≤ n ∧ n ≤ 0xD7FF ∨ n = 0x9 ∨ n = 0xA ∨ n = 0xD ∨ 0xE000 ≤ n ∧ n ≤ 0xFFFD ∨
    0x10000 ≤ n ∧ n ≤ 0x10FFFF)

def isBlank (c : Char) : Bool :=
  c = ' ' || c = '\t' || c = '\n' || c = '\r'

def isQuote (c : Char) : Bool :=
  c = '\x22' || c = '\x27'

def isNameStart (c : Char) : Bool :=
  let n := c.toNat
  decide (n = 0x3A ∨ n = 0x5F ∨ 0x41 ≤ n ∧ n ≤ 0x5A ∨ 0x61 ≤ n ∧ n ≤ 0x7A ∨ 0xC0 ≤ n ∧ n ≤ 0xD6 ∨
    0xD8 ≤ n ∧ n ≤ 0xF6 ∨ 0xF8 ≤ n ∧ n ≤ 0x2FF ∨ 0x370 ≤ n ∧ n ≤ 0x37D ∨ 0x37F ≤ n ∧ n ≤ 0x1FFF ∨
    0x200C ≤ n ∧ n ≤ 0x200D ∨ 0x2070 ≤ n ∧ n ≤ 0x218F ∨ 0x2C00 ≤ n ∧ n ≤ 0x2FEF ∨
    0x3001 ≤ n ∧ n ≤ 0xD7FF ∨ 0xF900 ≤ n ∧ n ≤ 0xFDCF ∨ 0xFDF0 ≤ n ∧ n ≤ 0xFFFD ∨
    0x10000 ≤ n ∧ n ≤ 0xEFFFF)

def isNameChar (c : Char) : Bool :=
  let n := c.toNat
  isNameStart c || decide (n = 0x2D ∨ n = 0x2E ∨ 0x30 ≤ n ∧ n ≤ 0x39 ∨ n = 0xB7 ∨
    0x300 ≤ n ∧ n ≤ 0x36F ∨ 0x203F ≤ n ∧ n ≤ 0x2040)

/-- Line ends are single line feeds for the reader. -/
def normalizeEol : List Char → List Char
  | [] => []
  | '\r' :: '\n' :: s => '\n' :: normalizeEol s
  | '\r' :: s => '\n' :: normalizeEol s
  | c :: s => c :: normalizeEol s

/-- The value of a string of digits. -/
def digitsValue (base : ℕ) (digit : Char → Option ℕ) (s : List Char) : Option ℕ :=
  s.foldlM (fun value c ↦ (digit c).map fun d ↦ value * base + d) 0

def decimalDigit (c : Char) : Option ℕ :=
  if '0' ≤ c ∧ c ≤ '9' then some (c.toNat - 48) else none

def hexadecimalDigit (c : Char) : Option ℕ :=
  if '0' ≤ c ∧ c ≤ '9' then some (c.toNat - 48)
  else if 'a' ≤ c ∧ c ≤ 'f' then some (c.toNat - 87)
  else if 'A' ≤ c ∧ c ≤ 'F' then some (c.toNat - 55)
  else none

def charOfValue (n : ℕ) : Option Char :=
  if n.isValidChar ∧ isLegal (Char.ofNat n) then some (Char.ofNat n) else none

/-- What a reference stands for: one of the five predefined entities or a
character by its number. -/
def resolve : List Char → Option Char
  | ['a', 'm', 'p'] => some '&'
  | ['l', 't'] => some '<'
  | ['g', 't'] => some '>'
  | ['q', 'u', 'o', 't'] => some '\x22'
  | ['a', 'p', 'o', 's'] => some '\x27'
  | '#' :: 'x' :: c :: s => (digitsValue 16 hexadecimalDigit (c :: s)).bind charOfValue
  | '#' :: c :: s => (digitsValue 10 decimalDigit (c :: s)).bind charOfValue
  | _ => none

/-! ## Tokens -/

inductive Markup
  | instruction (content : List Char)
  | doctype (content : List Char)
  | comment (content : List Char)
  | startTag (content : List Char)
  | emptyTag (content : List Char)
  | endTag (name : List Char)
  deriving DecidableEq, Repr

def Markup.source : Markup → List Char
  | .instruction content => ['<', '?'] ++ content ++ ['?', '>']
  | .doctype content => ['<', '!', 'D', 'O', 'C', 'T', 'Y', 'P', 'E'] ++ content ++ ['>']
  | .comment content => ['<', '!', '-', '-'] ++ content ++ ['-', '-', '>']
  | .startTag content => ['<'] ++ content ++ ['>']
  | .emptyTag content => ['<'] ++ content ++ ['/', '>']
  | .endTag name => ['<', '/'] ++ name ++ ['>']

/-- Markup and characters of text, which may be more than characters where a
text still has gaps. -/
inductive Token (α : Type)
  | sym (a : α)
  | mark (m : Markup)
  deriving DecidableEq, Repr

/-- How a token is written if it is a character that stands for itself. -/
def Token.source : Token Char → List Char
  | .sym c => [c]
  | .mark m => m.source

def source (ts : List (Token Char)) : List Char :=
  ts.flatMap Token.source

/-! ## The reader -/

inductive Mode
  | content (brackets : ℕ)
  | reference (name : List Char)
  | opened
  | tag (content : List Char) (quote : Option Char)
  | closing (name : List Char)
  | instruction (content : List Char)
  | declaration (content : List Char)
  | comment (content : List Char)
  | cdata (content : List Char)
  | doctype (content : List Char) (quote : Option Char)
  deriving DecidableEq, Repr

/-- Closing brackets just read, of which two matter. -/
def nextBrackets (k : ℕ) (c : Char) : ℕ :=
  if c = ']' then min 2 (k + 1) else 0

/-- Text, in which `]]>` must not occur. -/
def contentStep (k : ℕ) (c : Char) : Option (List (Token Char) × Mode) :=
  if c = '<' then some ([], .opened)
  else if c = '&' then some ([], .reference [])
  else if c = '>' ∧ 2 ≤ k then none
  else some ([.sym c], .content (nextBrackets k c))

def referenceStep (name : List Char) (c : Char) : Option (List (Token Char) × Mode) :=
  if c = ';' then (resolve name).map fun a ↦ ([.sym a], .content 0)
  else if isNameChar c ∨ c = '#' then some ([], .reference (name ++ [c]))
  else none

def openedStep (c : Char) : Option (List (Token Char) × Mode) :=
  if c = '/' then some ([], .closing [])
  else if c = '?' then some ([], .instruction [])
  else if c = '!' then some ([], .declaration [])
  else if isNameStart c then some ([], .tag [c] none)
  else none

/-- A start tag or an empty tag, up to the first `>` outside quotes. -/
def tagStep (content : List Char) (quote : Option Char) (c : Char) :
    Option (List (Token Char) × Mode) :=
  if c = '<' then none
  else if quote = none ∧ c = '>' then
    if content.getLast? = some '/' then some ([.mark (.emptyTag content.dropLast)], .content 0)
    else some ([.mark (.startTag content)], .content 0)
  else if quote = none ∧ isQuote c then some ([], .tag (content ++ [c]) (some c))
  else if quote = some c then some ([], .tag (content ++ [c]) none)
  else some ([], .tag (content ++ [c]) quote)

def closingStep (name : List Char) (c : Char) : Option (List (Token Char) × Mode) :=
  if c = '<' then none
  else if c = '>' then some ([.mark (.endTag name)], .content 0)
  else some ([], .closing (name ++ [c]))

def instructionStep (content : List Char) (c : Char) : Option (List (Token Char) × Mode) :=
  if content.getLast? = some '?' ∧ c = '>' then
    some ([.mark (.instruction content.dropLast)], .content 0)
  else some ([], .instruction (content ++ [c]))

/-- After `<!`: a comment, a character data section or a document type. -/
def declarationStep (content : List Char) (c : Char) : Option (List (Token Char) × Mode) :=
  if content ++ [c] = ['-', '-'] then some ([], .comment [])
  else if content ++ [c] = ['[', 'C', 'D', 'A', 'T', 'A', '['] then some ([], .cdata [])
  else if content ++ [c] = ['D', 'O', 'C', 'T', 'Y', 'P', 'E'] then some ([], .doctype [] none)
  else if content.length < 7 then some ([], .declaration (content ++ [c]))
  else none

/-- A comment ends at its first double hyphen. -/
def commentStep (content : List Char) (c : Char) : Option (List (Token Char) × Mode) :=
  if ['-', '-'] <:+ content then
    if c = '>' then some ([.mark (.comment content.dropLast.dropLast)], .content 0) else none
  else some ([], .comment (content ++ [c]))

def cdataStep (content : List Char) (c : Char) : Option (List (Token Char) × Mode) :=
  if [']', ']'] <:+ content ∧ c = '>' then
    some (content.dropLast.dropLast.map .sym, .content 0)
  else some ([], .cdata (content ++ [c]))

def doctypeStep (content : List Char) (quote : Option Char) (c : Char) :
    Option (List (Token Char) × Mode) :=
  if quote = none ∧ c = '>' then some ([.mark (.doctype content)], .content 0)
  else if quote = none ∧ (c = '[' ∨ c = '<') then none
  else if quote = none ∧ isQuote c then some ([], .doctype (content ++ [c]) (some c))
  else if quote = some c then some ([], .doctype (content ++ [c]) none)
  else some ([], .doctype (content ++ [c]) quote)

def modeStep : Mode → Char → Option (List (Token Char) × Mode)
  | .content k, c => contentStep k c
  | .reference name, c => referenceStep name c
  | .opened, c => openedStep c
  | .tag content quote, c => tagStep content quote c
  | .closing name, c => closingStep name c
  | .instruction content, c => instructionStep content c
  | .declaration content, c => declarationStep content c
  | .comment content, c => commentStep content c
  | .cdata content, c => cdataStep content c
  | .doctype content quote, c => doctypeStep content quote c

def step (m : Mode) (c : Char) : Option (List (Token Char) × Mode) :=
  if isLegal c then modeStep m c else none

def run : Mode → List Char → Option (List (Token Char) × Mode) :=
  Transducer.run step

def Mode.isContent : Mode → Bool
  | .content _ => true
  | _ => false

/-- The tokens of a document, if it ends outside all markup. -/
def read (s : List Char) : Option (List (Token Char)) :=
  (run (.content 0) (normalizeEol s)).bind fun final ↦
    if final.2.isContent then some final.1 else none

/-! ## What a step can do -/

/-- What has been read of the current piece of markup. -/
def Mode.source : Mode → List Char
  | .content _ => []
  | .reference name => ['&'] ++ name
  | .opened => ['<']
  | .tag body _ => ['<'] ++ body
  | .closing name => ['<', '/'] ++ name
  | .instruction body => ['<', '?'] ++ body
  | .declaration body => ['<', '!'] ++ body
  | .comment body => ['<', '!', '-', '-'] ++ body
  | .cdata body => ['<', '!', '[', 'C', 'D', 'A', 'T', 'A', '['] ++ body
  | .doctype body _ => ['<', '!', 'D', 'O', 'C', 'T', 'Y', 'P', 'E'] ++ body

/-- A step reads a character of text, goes on in some markup, ends a piece of
markup, or ends a reference or a section, which are longer than what they
stand for. -/
inductive Step : Mode → Char → List (Token Char) → Mode → Prop
  | plain {k : ℕ} {c : Char} (hlt : c ≠ '<') (hamp : c ≠ '&') (hgt : c = '>' → k < 2) :
      Step (.content k) c [.sym c] (.content (nextBrackets k c))
  | more {m m' : Mode} {c : Char} (hcontent : m'.isContent = false)
      (hsource : m'.source = m.source ++ [c]) : Step m c [] m'
  | mark {m : Mode} {c : Char} {e : Markup} (hcontent : m.isContent = false)
      (hsource : e.source = m.source ++ [c]) : Step m c [.mark e] (.content 0)
  | shorter {m : Mode} {c : Char} {text : List Char} (hcontent : m.isContent = false)
      (hlength : text.length < m.source.length + 1) : Step m c (text.map .sym) (.content 0)

theorem dropLast_append_of_getLast? {α : Type} {l : List α} {a : α} (h : l.getLast? = some a) :
    l.dropLast ++ [a] = l := by
  obtain ⟨hne, rfl⟩ := List.mem_getLast?_eq_getLast h
  exact List.dropLast_append_getLast hne

theorem dropLast_dropLast_append {α : Type} {l : List α} {a b : α} (h : [a, b] <:+ l) :
    l.dropLast.dropLast ++ [a, b] = l := by
  obtain ⟨t, rfl⟩ := h
  simp [List.dropLast_append_of_ne_nil]

theorem source_sym (l : List Char) : source (l.map .sym) = l := by
  simp [source, List.flatMap_map, Token.source]

theorem tagStep_cases {content : List Char} {quote : Option Char} {c : Char}
    {ts : List (Token Char)} {m' : Mode} (h : tagStep content quote c = some (ts, m')) :
    Step (.tag content quote) c ts m' := by
  unfold tagStep at h
  split at h
  · cases h
  split at h
  · rename_i hend
    split at h
    · rename_i hslash
      cases h
      refine .mark rfl ?_
      rw [hend.2, Mode.source, Markup.source, ← dropLast_append_of_getLast? hslash]
      simp
    · cases h
      exact .mark rfl (by rw [hend.2]; rfl)
  split at h
  · cases h
    exact .more rfl (by simp [Mode.source])
  split at h
  · cases h
    exact .more rfl (by simp [Mode.source])
  · cases h
    exact .more rfl (by simp [Mode.source])

theorem doctypeStep_cases {content : List Char} {quote : Option Char} {c : Char}
    {ts : List (Token Char)} {m' : Mode} (h : doctypeStep content quote c = some (ts, m')) :
    Step (.doctype content quote) c ts m' := by
  unfold doctypeStep at h
  split at h
  · rename_i hend
    cases h
    exact .mark rfl (by rw [hend.2]; rfl)
  split at h
  · cases h
  split at h
  · cases h
    exact .more rfl (by simp [Mode.source])
  split at h
  · cases h
    exact .more rfl (by simp [Mode.source])
  · cases h
    exact .more rfl (by simp [Mode.source])

theorem declarationStep_cases {content : List Char} {c : Char} {ts : List (Token Char)} {m' : Mode}
    (h : declarationStep content c = some (ts, m')) : Step (.declaration content) c ts m' := by
  unfold declarationStep at h
  have hsource : (Mode.declaration content).source ++ [c] = ['<', '!'] ++ (content ++ [c]) := by
    simp [Mode.source]
  split at h
  · rename_i hdash
    cases h
    exact .more rfl (by rw [hsource, hdash]; rfl)
  split at h
  · rename_i hcdata
    cases h
    exact .more rfl (by rw [hsource, hcdata]; rfl)
  split at h
  · rename_i hdoctype
    cases h
    exact .more rfl (by rw [hsource, hdoctype]; rfl)
  split at h
  · cases h
    exact .more rfl hsource.symm
  · cases h

theorem modeStep_cases {m m' : Mode} {c : Char} {ts : List (Token Char)}
    (h : modeStep m c = some (ts, m')) : Step m c ts m' := by
  cases m with
  | content k =>
      simp only [modeStep, contentStep] at h
      split at h
      · rename_i hlt
        cases h
        exact .more rfl (by rw [hlt]; rfl)
      split at h
      · rename_i hamp
        cases h
        exact .more rfl (by rw [hamp]; rfl)
      split at h
      · cases h
      · rename_i hlt hamp hgt
        cases h
        exact .plain hlt hamp fun hc ↦ by
          by_contra hk
          exact hgt ⟨hc, by omega⟩
  | reference name =>
      simp only [modeStep, referenceStep] at h
      split at h
      · obtain ⟨a, -, ha⟩ := Option.map_eq_some_iff.mp h
        cases ha
        rw [← List.map_singleton]
        exact .shorter rfl (by simp [Mode.source])
      split at h
      · cases h
        exact .more rfl (by simp [Mode.source])
      · cases h
  | opened =>
      simp only [modeStep, openedStep] at h
      split at h
      · rename_i hc
        cases h
        exact .more rfl (by rw [hc]; rfl)
      split at h
      · rename_i hc
        cases h
        exact .more rfl (by rw [hc]; rfl)
      split at h
      · rename_i hc
        cases h
        exact .more rfl (by rw [hc]; rfl)
      split at h
      · cases h
        exact .more rfl rfl
      · cases h
  | tag content quote => exact tagStep_cases h
  | closing name =>
      simp only [modeStep, closingStep] at h
      split at h
      · cases h
      split at h
      · rename_i hc
        cases h
        exact .mark rfl (by rw [hc]; rfl)
      · cases h
        exact .more rfl (by simp [Mode.source])
  | instruction content =>
      simp only [modeStep, instructionStep] at h
      split at h
      · rename_i hend
        cases h
        refine .mark rfl ?_
        rw [hend.2, Mode.source, Markup.source, ← dropLast_append_of_getLast? hend.1]
        simp
      · cases h
        exact .more rfl (by simp [Mode.source])
  | declaration content => exact declarationStep_cases h
  | comment content =>
      simp only [modeStep, commentStep] at h
      split at h
      · rename_i hdash
        split at h
        · rename_i hc
          cases h
          refine .mark rfl ?_
          rw [hc, Mode.source, Markup.source, ← dropLast_dropLast_append hdash]
          simp
        · cases h
      · cases h
        exact .more rfl (by simp [Mode.source])
  | cdata content =>
      simp only [modeStep, cdataStep] at h
      split at h
      · cases h
        refine .shorter rfl ?_
        rw [Mode.source, List.length_dropLast, List.length_dropLast, List.length_append]
        omega
      · cases h
        exact .more rfl (by simp [Mode.source])
  | doctype content quote => exact doctypeStep_cases h

theorem step_cases {m m' : Mode} {c : Char} {ts : List (Token Char)}
    (h : step m c = some (ts, m')) : Step m c ts m' := by
  unfold step at h
  split at h
  · exact modeStep_cases h
  · cases h

/-! ## Documents that spell their tokens -/

theorem source_append (ts us : List (Token Char)) : source (ts ++ us) = source ts ++ source us :=
  List.flatMap_append

@[simp] theorem source_nil : source [] = [] := rfl

@[simp] theorem source_cons (t : Token Char) (ts : List (Token Char)) :
    source (t :: ts) = t.source ++ source ts :=
  List.flatMap_cons

@[simp] theorem Mode.source_content (k : ℕ) : (Mode.content k).source = [] := rfl

/-- Tokens whose text can be written as it is, after `k` closing brackets. -/
def Spelled : ℕ → List (Token Char) → Prop
  | _, [] => True
  | _, .mark _ :: ts => Spelled 0 ts
  | k, .sym c :: ts => c ≠ '<' ∧ c ≠ '&' ∧ (c = '>' → k < 2) ∧ Spelled (nextBrackets k c) ts

/-- The closing brackets at the end of the text so far. -/
def brackets : ℕ → List (Token Char) → ℕ
  | k, [] => k
  | _, .mark _ :: ts => brackets 0 ts
  | k, .sym c :: ts => brackets (nextBrackets k c) ts

theorem spelled_append {k : ℕ} {ts us : List (Token Char)} :
    Spelled k (ts ++ us) ↔ Spelled k ts ∧ Spelled (brackets k ts) us := by
  induction ts generalizing k with
  | nil => simp [Spelled, brackets]
  | cons t ts ih =>
      cases t with
      | sym c => simp only [List.cons_append, Spelled, brackets, ih, and_assoc]
      | mark m => simp only [List.cons_append, Spelled, brackets, ih]

theorem nextBrackets_le (k : ℕ) (c : Char) : nextBrackets k c ≤ 2 := by
  unfold nextBrackets
  split
  · exact min_le_left _ _
  · exact Nat.zero_le _

theorem brackets_le {k : ℕ} (hk : k ≤ 2) (ts : List (Token Char)) : brackets k ts ≤ 2 := by
  induction ts generalizing k with
  | nil => exact hk
  | cons t ts ih =>
      cases t with
      | sym c => exact ih (nextBrackets_le k c)
      | mark m => exact ih (Nat.zero_le 2)

theorem spelled_sym_iff {k : ℕ} (hk : k ≤ 2) (text : List Char) :
    Spelled k (text.map .sym) ↔
      '<' ∉ text ∧ '&' ∉ text ∧ ¬ [']', ']', '>'] <:+: List.replicate k ']' ++ text := by
  induction text generalizing k with
  | nil =>
      interval_cases k <;> simp [Spelled] <;> decide
  | cons c text ih =>
      rw [List.map_cons, Spelled, ih (nextBrackets_le k c)]
      by_cases hbracket : c = ']'
      · subst hbracket
        interval_cases k <;>
          simp [nextBrackets, List.infix_cons_iff, List.cons_prefix_cons, List.replicate_succ]
      · by_cases hgt : c = '>'
        · subst hgt
          interval_cases k <;>
            simp [nextBrackets, List.infix_cons_iff, List.cons_prefix_cons, List.replicate_succ]
        · have hbracket' : ¬ ']' = c := fun h ↦ hbracket h.symm
          have hgt' : ¬ '>' = c := fun h ↦ hgt h.symm
          rw [List.mem_cons, List.mem_cons, eq_comm, @eq_comm _ '&']
          interval_cases k <;>
            simp [nextBrackets, hbracket, hbracket', hgt', List.infix_cons_iff,
              List.cons_prefix_cons, List.replicate_succ] <;> tauto

/-- Text that can be written as it is. -/
def Plain (text : List Char) : Prop :=
  Spelled 0 (text.map .sym) ∧ '\r' ∉ text

theorem plain_iff (text : List Char) :
    Plain text ↔ '<' ∉ text ∧ '&' ∉ text ∧ ¬ [']', ']', '>'] <:+: text ∧ '\r' ∉ text := by
  rw [Plain, spelled_sym_iff (Nat.zero_le 2), List.replicate_zero, List.nil_append, and_assoc,
    and_assoc]

/-- Characters that mean nothing special in text, wherever they stand. -/
def isSafe (c : Char) : Bool :=
  isLegal c && decide (c ∉ ['<', '&', '>', '\r'])

theorem plain_of_safe {text : List Char} (h : ∀ c ∈ text, isSafe c) :
    Plain text ∧ ∀ c ∈ text, isLegal c := by
  have hsafe : ∀ c ∈ text, isLegal c ∧ c ∉ ['<', '&', '>', '\r'] := by
    intro c hc
    simpa [isSafe] using h c hc
  have hnot : ∀ c ∈ ['<', '&', '>', '\r'], c ∉ text := fun c hc hmem ↦ (hsafe c hmem).2 hc
  have hend : ¬ [']', ']', '>'] <:+: text := fun hwithin ↦
    hnot '>' (by simp) (hwithin.mem (by simp))
  exact ⟨(plain_iff text).mpr ⟨hnot _ (by simp), hnot _ (by simp), hend, hnot _ (by simp)⟩,
    fun c hc ↦ (hsafe c hc).1⟩

/-- A run that loses no length has read every character of text as itself. -/
theorem run_spells {m m' : Mode} {s : List Char} {ts : List (Token Char)}
    (h : run m s = some (ts, m')) :
    (source ts ++ m'.source).length ≤ (m.source ++ s).length ∧
      ((source ts ++ m'.source).length = (m.source ++ s).length →
        source ts ++ m'.source = m.source ++ s ∧
          ∀ k, (∀ j, m = .content j → k = j) → Spelled k ts) := by
  induction s generalizing m ts with
  | nil =>
      cases h
      simp [Spelled]
  | cons c s ih =>
      obtain ⟨ts₁, m₁, ts₂, hstep, hrun, rfl⟩ := Transducer.run_cons h
      obtain ⟨hle, hspelled⟩ := ih hrun
      rw [source_append, List.append_assoc]
      cases step_cases hstep with
      | plain hlt hamp hgt =>
          simp only [Mode.source_content, List.nil_append, source_cons, source_nil, Token.source,
            List.append_nil, List.singleton_append, List.length_cons] at hle hspelled ⊢
          refine ⟨by omega, fun heq ↦ ?_⟩
          obtain ⟨hsource, hts⟩ := hspelled (by omega)
          refine ⟨by rw [hsource], fun k hk ↦ ?_⟩
          rw [hk _ rfl]
          exact ⟨hlt, hamp, hgt, hts _ fun j hj ↦ by cases hj; rfl⟩
      | more hcontent hsource =>
          rw [hsource, List.append_assoc] at hle hspelled
          refine ⟨hle, fun heq ↦ ?_⟩
          obtain ⟨hspell, hts⟩ := hspelled heq
          refine ⟨hspell, fun k _ ↦ hts k fun j hj ↦ ?_⟩
          rw [hj] at hcontent
          cases hcontent
      | mark hcontent hsource =>
          simp only [Mode.source_content, List.nil_append, source_cons, source_nil, Token.source,
            hsource, List.append_nil, List.append_assoc, List.singleton_append, List.length_append,
            List.length_cons] at hle hspelled ⊢
          refine ⟨by omega, fun heq ↦ ?_⟩
          obtain ⟨hspell, hts⟩ := hspelled (by omega)
          refine ⟨by rw [hspell], fun k _ ↦ ?_⟩
          exact hts 0 fun j hj ↦ by cases hj; rfl
      | shorter hcontent hlength =>
          simp only [Mode.source_content, source_sym, List.nil_append, List.length_append,
            List.length_cons] at hle ⊢
          exact ⟨by omega, fun heq ↦ by omega⟩

/-- Markup that the reader finds again in its own source, which opens markup
only once. -/
structure Markup.Readable (m : Markup) : Prop where
  run_source : ∀ k ≤ 2, run (.content k) m.source = some ([.mark m], .content 0)
  opensOnce : '<' ∉ m.source.tail
  noReturn : '\r' ∉ m.source

instance (m : Markup) : Decidable m.Readable :=
  decidable_of_iff ((∀ k ≤ 2, run (.content k) m.source = some ([.mark m], .content 0)) ∧
    '<' ∉ m.source.tail ∧ '\r' ∉ m.source)
    ⟨fun h ↦ ⟨h.1, h.2.1, h.2.2⟩, fun h ↦ ⟨h.run_source, h.opensOnce, h.noReturn⟩⟩

/-- A token that may stand in a document, its line ends being line feeds. -/
def Token.Sound : Token Char → Prop
  | .sym c => isLegal c ∧ c ≠ '\r'
  | .mark m => m.Readable

def Token.decidableSound : (t : Token Char) → Decidable t.Sound
  | .sym c => inferInstanceAs (Decidable (isLegal c ∧ c ≠ '\r'))
  | .mark m => inferInstanceAs (Decidable m.Readable)

instance (t : Token Char) : Decidable t.Sound :=
  t.decidableSound

theorem run_of_spelled {k : ℕ} {ts : List (Token Char)} (hk : k ≤ 2)
    (hsound : ∀ t ∈ ts, t.Sound) (h : Spelled k ts) :
    ∃ j ≤ 2, run (.content k) (source ts) = some (ts, .content j) := by
  induction ts generalizing k with
  | nil => exact ⟨k, hk, rfl⟩
  | cons t ts ih =>
      have hfirst := hsound t List.mem_cons_self
      have hrest : ∀ u ∈ ts, u.Sound := fun u hu ↦ hsound u (List.mem_cons_of_mem _ hu)
      cases t with
      | sym c =>
          obtain ⟨hlt, hamp, hgt, hts⟩ := h
          obtain ⟨j, hle, hj⟩ := ih (nextBrackets_le k c) hrest hts
          have hstep : step (.content k) c = some ([.sym c], .content (nextBrackets k c)) := by
            have hopen : ¬ (c = '>' ∧ 2 ≤ k) := fun hc ↦ absurd (hgt hc.1) (by omega)
            rw [step, if_pos hfirst.1, modeStep, contentStep, if_neg hlt,
              if_neg hamp, if_neg hopen]
          refine ⟨j, hle, ?_⟩
          exact (Transducer.run_cons_of_some hstep).trans (congrArg (Option.map _) hj)
      | mark m =>
          obtain ⟨j, hle, hj⟩ := ih (Nat.zero_le 2) hrest h
          exact ⟨j, hle, Transducer.run_append (hfirst.run_source k hk) hj⟩

theorem normalizeEol_length_le (s : List Char) : (normalizeEol s).length ≤ s.length := by
  induction s using normalizeEol.induct with
  | case1 => exact le_rfl
  | case2 s ih =>
      rw [normalizeEol, List.length_cons, List.length_cons, List.length_cons]
      omega
  | case3 s hs ih =>
      rw [normalizeEol, List.length_cons, List.length_cons]
      · omega
      · exact hs
  | case4 c s hcrlf hcr ih =>
      rw [normalizeEol, List.length_cons, List.length_cons]
      · omega
      · exact hcrlf
      · exact hcr

theorem not_mem_normalizeEol (s : List Char) : '\r' ∉ normalizeEol s := by
  induction s using normalizeEol.induct with
  | case1 => exact List.not_mem_nil
  | case2 s ih =>
      rw [normalizeEol]
      simpa using ih
  | case3 s hs ih =>
      rw [normalizeEol]
      · simpa using ih
      · exact hs
  | case4 c s hcrlf hcr ih =>
      rw [normalizeEol, List.mem_cons, not_or]
      · exact ⟨fun h ↦ hcr h.symm, ih⟩
      · exact hcrlf
      · exact hcr

theorem normalizeEol_append_of_not_mem {s : List Char} (h : '\r' ∉ s) (t : List Char) :
    normalizeEol (s ++ t) = s ++ normalizeEol t := by
  induction s with
  | nil => rfl
  | cons c s ih =>
      rw [List.mem_cons, not_or] at h
      rw [List.cons_append, normalizeEol, ih h.2]
      · rfl
      · rintro s rfl
        exact absurd rfl h.1
      · rintro rfl
        exact absurd rfl h.1

theorem normalizeEol_of_not_mem {s : List Char} (h : '\r' ∉ s) : normalizeEol s = s := by
  have happend := normalizeEol_append_of_not_mem h []
  rwa [normalizeEol, List.append_nil] at happend

theorem normalizeEol_append {s t : List Char} (h : t.head? ≠ some '\n') :
    normalizeEol (s ++ t) = normalizeEol s ++ normalizeEol t := by
  induction s using normalizeEol.induct with
  | case1 => rfl
  | case2 s ih =>
      simp only [List.cons_append, normalizeEol, ih]
  | case3 s hs ih =>
      rw [normalizeEol, List.cons_append, normalizeEol, ih]
      · rfl
      · intro t' ht'
        cases s with
        | nil => exact h (by rw [show t = '\n' :: t' from ht']; rfl)
        | cons c s =>
            cases ht'
            exact hs s rfl
      · exact hs
  | case4 c s hcrlf hcr ih =>
      rw [normalizeEol, List.cons_append, normalizeEol, ih]
      · rfl
      · exact fun _ hc ↦ absurd hc hcr
      · exact hcr
      · exact hcrlf
      · exact hcr

theorem not_mem_source {ts : List (Token Char)} (hsound : ∀ t ∈ ts, t.Sound) :
    '\r' ∉ source ts := by
  intro hmem
  obtain ⟨t, ht, hct⟩ := List.mem_flatMap.mp hmem
  have h := hsound t ht
  cases t with
  | sym c => exact h.2 (List.mem_singleton.mp hct).symm
  | mark m => exact h.noReturn hct

theorem read_of_spelled {ts : List (Token Char)} (hsound : ∀ t ∈ ts, t.Sound)
    (h : Spelled 0 ts) : read (source ts) = some ts := by
  obtain ⟨j, -, hj⟩ := run_of_spelled (Nat.zero_le 2) hsound h
  rw [read, normalizeEol_of_not_mem (not_mem_source hsound), hj]
  rfl

end Xml
