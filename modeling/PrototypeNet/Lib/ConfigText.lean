import Mathlib

/-!
# Settings files and shell scripts

A reader goes through a text one character at a time and gives off the items
it has completed.  Two readers are given: one for the settings of a file, each
a name, an equals sign and a value up to the end of the statement, and one for
the commands of a shell script, each a list of words.  In settings, quotes have
no meaning.  In scripts, quotes, escapes, comments and redirections have
theirs.  Expansions stay as they are, what stands in parentheses is read as
part of the command around it, and the text of a here-document as commands.
-/

namespace ConfigText

/-! ## Readers -/

/-- The items that each character completes, and those that the end completes. -/
structure Reader (σ β : Type) where
  start : σ
  step : σ → Char → List β × σ
  finish : σ → List β

namespace Reader

variable {σ β : Type} (R : Reader σ β)

/-- The state after a part of the text. -/
def after : σ → List Char → σ
  | s, [] => s
  | s, c :: text => after (R.step s c).2 text

def itemsFrom : σ → List Char → List β
  | s, [] => R.finish s
  | s, c :: text => (R.step s c).1 ++ itemsFrom (R.step s c).2 text

def items (text : List Char) : List β :=
  R.itemsFrom R.start text

theorem itemsFrom_append (s : σ) (a b : List Char) :
    ∃ done, R.itemsFrom s (a ++ b) = done ++ R.itemsFrom (R.after s a) b := by
  induction a generalizing s with
  | nil => exact ⟨[], rfl⟩
  | cons c a ih =>
      obtain ⟨done, h⟩ := ih (R.step s c).2
      refine ⟨(R.step s c).1 ++ done, ?_⟩
      rw [List.cons_append, itemsFrom, h, after, List.append_assoc]

/-- What follows a part of the text is among the items of the whole. -/
theorem mem_items_of_mem_itemsFrom {a b : List Char} {item : β}
    (h : item ∈ R.itemsFrom (R.after R.start a) b) : item ∈ R.items (a ++ b) := by
  obtain ⟨done, hdone⟩ := R.itemsFrom_append R.start a b
  rw [items, hdone]
  exact List.mem_append_right done h

variable {R}

theorem itemsFrom_cons_of_silent {s t : σ} {c : Char} (h : R.step s c = ([], t))
    (text : List Char) : R.itemsFrom s (c :: text) = R.itemsFrom t text := by
  rw [itemsFrom, h, List.nil_append]

end Reader

/-! ## Blanks -/

def isBlank (c : Char) : Bool :=
  c = ' ' || c = '\t' || c = '\r'

def Blank (s : List Char) : Prop :=
  ∀ c ∈ s, isBlank c

instance (s : List Char) : Decidable (Blank s) :=
  List.decidableBAll _ s

/-- Without the blanks at both ends. -/
def strip (s : List Char) : List Char :=
  (s.dropWhile isBlank).rdropWhile isBlank

theorem rdropWhile_append_blank {b : List Char} (hb : Blank b) (s : List Char) :
    (s ++ b).rdropWhile isBlank = s.rdropWhile isBlank := by
  rw [List.rdropWhile, List.reverse_append, List.dropWhile_append_of_pos, List.rdropWhile]
  exact fun c hc ↦ hb c (List.mem_reverse.mp hc)

theorem strip_append_blank {a b : List Char} (ha : Blank a) (hb : Blank b) (s : List Char) :
    strip (a ++ s ++ b) = strip s := by
  rw [strip, List.append_assoc, List.dropWhile_append_of_pos ha, List.dropWhile_append]
  split
  · rename_i hempty
    have hs : s.dropWhile isBlank = [] := List.isEmpty_iff.mp hempty
    have hall : b.dropWhile isBlank = [] := List.dropWhile_eq_nil_iff.mpr hb
    rw [strip, hs, hall]
  · rw [rdropWhile_append_blank hb, strip]

theorem strip_cons_blank {c : Char} (hc : isBlank c = true) (s : List Char) :
    strip (c :: s) = strip s := by
  rw [strip, List.dropWhile_cons_of_pos hc, strip]

theorem dropWhile_eq_self_of_strip {v : List Char} (hv : strip v = v) :
    v.dropWhile isBlank = v := by
  refine (List.dropWhile_suffix isBlank).eq_of_length_le ?_
  have hstrip : (strip v).length ≤ (v.dropWhile isBlank).length :=
    (List.rdropWhile_prefix isBlank _).length_le
  rwa [hv] at hstrip

/-- What is not blank at its ends stays at the beginning of a longer text. -/
theorem prefix_strip_append {v : List Char} (hv : strip v = v) (s : List Char) :
    v <+: strip (v ++ s) := by
  have hdrop := dropWhile_eq_self_of_strip hv
  have hlast : v.reverse.dropWhile isBlank = v.reverse := by
    rw [strip, hdrop, List.rdropWhile, List.reverse_eq_iff] at hv
    exact hv
  by_cases hnil : v = []
  · rw [hnil]
    exact List.nil_prefix
  · rw [strip, List.dropWhile_append, hdrop, if_neg (by simpa using hnil), List.rdropWhile,
      List.reverse_append, List.dropWhile_append, hlast]
    split
    · rw [List.reverse_reverse]
    · rw [List.reverse_append, List.reverse_reverse]
      exact List.prefix_append _ _

/-- A text that is not blank at its ends and goes on is longer, blanks apart. -/
theorem strip_append_eq {v : List Char} (hv : strip v = v) {s : List Char}
    (h : (strip (v ++ s)).length ≤ v.length) : strip (v ++ s) = v :=
  ((prefix_strip_append hv s).eq_of_length_le h).symm

/-! ## Settings -/

/-- What is being read, with its text so far. -/
inductive Mode
  | name (text : List Char)
  | value (key text : List Char)
  | comment
  deriving DecidableEq, Repr

def endsStatement (c : Char) : Bool :=
  c = '\n' || c = '{' || c = '}'

def Mode.push : Mode → Char → Mode
  | .name text, c => if c = '=' then .value (strip text) [] else .name (text ++ [c])
  | .value key text, c => .value key (text ++ [c])
  | .comment, _ => .comment

/-- What is set when the statement ends. -/
def Mode.finish : Mode → List (List Char × List Char)
  | .value key text => [(key, strip text)]
  | _ => []

def Mode.step : Mode → Char → List (List Char × List Char) × Mode
  | .comment, c => ([], if c = '\n' then .name [] else .comment)
  | m, c =>
      if c = '#' then (m.finish, .comment)
      else if endsStatement c then (m.finish, .name [])
      else ([], m.push c)

def settingsReader : Reader Mode (List Char × List Char) :=
  ⟨.name [], Mode.step, Mode.finish⟩

/-- The settings of a file, in order. -/
def settings (text : List Char) : List (List Char × List Char) :=
  settingsReader.items text

example : settings "a \x7b\n b = 1 # c = 2\n # d = 3\n e=4 \x7d".toList =
    [("b".toList, "1".toList), ("e".toList, "4".toList)] := by decide

/-- Nothing in the text ends a statement. -/
def Open (s : List Char) : Prop :=
  ∀ c ∈ s, c ≠ '#' ∧ endsStatement c = false

instance (s : List Char) : Decidable (Open s) :=
  List.decidableBAll _ s

/-- Nothing but blanks has been read of a statement. -/
def Mode.atStart : Mode → Bool
  | .name text => text.all isBlank
  | _ => false

theorem exists_of_atStart {m : Mode} (h : m.atStart = true) : ∃ b, Blank b ∧ m = .name b := by
  cases m with
  | name b => exact ⟨b, List.all_eq_true.mp h, rfl⟩
  | value key text => cases h
  | comment => cases h

/-- Wherever the text `lead` stands, a statement begins with it. -/
def StartsStatement (text lead : List Char) : Prop :=
  ∀ n ≤ text.length, lead <+: text.drop n →
    (settingsReader.after settingsReader.start (text.take n)).atStart

instance (text lead : List Char) : Decidable (StartsStatement text lead) :=
  Nat.decidableBallLE _ _

section Statements

variable {s text key value : List Char}

theorem itemsFrom_push (m : Mode) (hm : m ≠ .comment) {c : Char} (hc : c ≠ '#')
    (hends : endsStatement c = false) (text : List Char) :
    settingsReader.itemsFrom m (c :: text) = settingsReader.itemsFrom (m.push c) text := by
  refine Reader.itemsFrom_cons_of_silent ?_ text
  change m.step c = _
  rw [Mode.step]
  · simp [hc, hends]
  · exact hm

theorem itemsFrom_name (b : List Char) (hs : Open s) (hequals : '=' ∉ s) (text : List Char) :
    settingsReader.itemsFrom (.name b) (s ++ text) =
      settingsReader.itemsFrom (.name (b ++ s)) text := by
  induction s generalizing b with
  | nil => rw [List.append_nil, List.nil_append]
  | cons c s ih =>
      have hc := hs c List.mem_cons_self
      have hne : c ≠ '=' := by
        rintro rfl
        exact hequals List.mem_cons_self
      rw [List.cons_append, itemsFrom_push (.name b) nofun hc.1 hc.2, Mode.push, if_neg hne,
        ih _ (fun d hd ↦ hs d (List.mem_cons_of_mem _ hd)) (hequals ∘ List.mem_cons_of_mem _),
        ← List.append_cons]

theorem itemsFrom_value (v : List Char) (hs : Open s) (text : List Char) :
    settingsReader.itemsFrom (.value key v) (s ++ text) =
      settingsReader.itemsFrom (.value key (v ++ s)) text := by
  induction s generalizing v with
  | nil => rw [List.append_nil, List.nil_append]
  | cons c s ih =>
      have hc := hs c List.mem_cons_self
      rw [List.cons_append, itemsFrom_push (.value key v) nofun hc.1 hc.2, Mode.push,
        ih _ fun d hd ↦ hs d (List.mem_cons_of_mem _ hd), ← List.append_cons]

/-- A value that has begun will be set, together with what follows it. -/
theorem exists_value (v text : List Char) :
    ∃ more, (key, strip (v ++ more)) ∈ settingsReader.itemsFrom (.value key v) text := by
  induction text generalizing v with
  | nil => exact ⟨[], by simp [Reader.itemsFrom, settingsReader, Mode.finish]⟩
  | cons c text ih =>
      by_cases hc : c ≠ '#' ∧ endsStatement c = false
      · rw [itemsFrom_push (.value key v) nofun hc.1 hc.2]
        obtain ⟨more, h⟩ := ih (v ++ [c])
        exact ⟨c :: more, by rwa [← List.append_cons] at h⟩
      · refine ⟨[], List.mem_append_left _ ?_⟩
        rw [List.append_nil]
        change _ ∈ (Mode.step _ c).1
        by_cases hhash : c = '#'
        · simp [Mode.step, hhash, Mode.finish]
        · have hends : endsStatement c = true := by
            simpa [hhash] using hc
          simp [Mode.step, hhash, hends, Mode.finish]

/-- A statement that begins with the key and the value sets the key to what the
value begins. -/
theorem mem_settings_of_infix (hkey : strip key = key) (hopen : Open key) (hequals : '=' ∉ key)
    (hvalue : Open value) (hstarts : StartsStatement text (key ++ " = ".toList))
    (h : key ++ " = ".toList ++ value <:+: text) :
    ∃ more, (key, strip (value ++ more)) ∈ settings text := by
  obtain ⟨pre, post, rfl⟩ := h
  have hstart := hstarts pre.length (by simp) (by simp)
  rw [List.append_assoc pre, List.take_left] at hstart
  -- The reader is before the key, then behind the equals sign, then behind the value.
  obtain ⟨b, hb, hafter⟩ := exists_of_atStart hstart
  have hname : Open (key ++ [' ']) ∧ '=' ∉ key ++ [' '] := by
    refine ⟨fun c hc ↦ ?_, by simp [hequals]⟩
    rcases List.mem_append.mp hc with hc | hc
    · exact hopen c hc
    · rw [List.mem_singleton.mp hc]
      decide
  have hspaced : Open (' ' :: value) := by
    intro c hc
    rcases List.mem_cons.mp hc with rfl | hc
    · decide
    · exact hvalue c hc
  have hstrip : strip (b ++ (key ++ [' '])) = key := by
    rw [← List.append_assoc, strip_append_blank hb (by decide), hkey]
  obtain ⟨more, hmem⟩ : ∃ more, (key, strip (' ' :: value ++ more)) ∈
      settingsReader.itemsFrom (.value key (' ' :: value)) post := exists_value _ post
  rw [List.cons_append, strip_cons_blank rfl] at hmem
  refine ⟨more, ?_⟩
  have htext : pre ++ (key ++ " = ".toList ++ value) ++ post =
      pre ++ ((key ++ [' ']) ++ '=' :: ((' ' :: value) ++ post)) := by
    simp
  rw [settings, htext]
  apply Reader.mem_items_of_mem_itemsFrom
  rw [hafter, itemsFrom_name b hname.1 hname.2,
    itemsFrom_push (.name _) nofun (by decide) (by decide), Mode.push, if_pos rfl, hstrip,
    itemsFrom_value [] hspaced]
  exact hmem

end Statements

/-! ## Shell commands -/

abbrev Word := List Char

/-- What is being read of a script.  A backslash remembers the quote it stands in. -/
inductive ShellMode
  | plain
  | quoted (mark : Char)
  | escaped (mark : Option Char)
  | comment
  | ampersand
  | redirection
  deriving DecidableEq, Repr

/-- The words of the command so far, the word that is being read, if there is
one, and whether the word is the target of a redirection; further how many
parentheses are open. -/
structure Shell where
  words : List Word
  text : Option Word
  target : Bool
  depth : ℕ
  mode : ShellMode
  deriving DecidableEq, Repr

namespace Shell

def start : Shell :=
  ⟨[], none, false, 0, .plain⟩

def push (s : Shell) (c : Char) : Shell :=
  { s with text := some (s.text.getD [] ++ [c]) }

/-- The target of a redirection is not a word of the command. -/
def endWord (s : Shell) : Shell :=
  match s.text with
  | none => s
  | some w =>
      { s with
        words := if s.target then s.words else s.words ++ [w], text := none, target := false }

/-- Within parentheses a command goes on. -/
def endCommand (s : Shell) : List (List Word) × Shell :=
  if s.endWord.depth = 0 then ([s.endWord.words], start) else ([], s.endWord)

/-- A number right before the operator belongs to it. -/
def redirect (s : Shell) : Shell :=
  let rest := if (s.text.getD []).all Char.isDigit then { s with text := none } else s.endWord
  { rest with target := true, mode := .redirection }

/-- A character outside quotes. -/
def readPlain (s : Shell) (c : Char) : List (List Word) × Shell :=
  if c = '\\' then ([], { s with mode := .escaped none })
  else if c = '\'' || c = '"' then ([], { s with text := some (s.text.getD []), mode := .quoted c })
  else if c = '#' && s.text.isNone then ([], { s with mode := .comment })
  else if c = '&' then ([], { s.endWord with mode := .ampersand })
  else if c = '<' || c = '>' then ([], s.redirect)
  else if c = '(' then ([], { s.endWord with depth := s.depth + 1 })
  else if c = ')' then ([], { s.endWord with depth := s.depth - 1 })
  else if c = '\n' || c = ';' || c = '|' then s.endCommand
  else if isBlank c then ([], s.endWord)
  else ([], s.push c)

def step (s : Shell) (c : Char) : List (List Word) × Shell :=
  match s.mode with
  | .plain => s.readPlain c
  | .quoted mark =>
      if c = mark then ([], { s with mode := .plain })
      else if c = '\\' && mark = '"' then ([], { s with mode := .escaped (some mark) })
      else ([], s.push c)
  | .escaped none => ([], { (if c = '\n' then s else s.push c) with mode := .plain })
  | .escaped (some mark) =>
      let kept := if c = '\n' then s else if c ∈ "\"\\$`".toList then s.push c
        else (s.push '\\').push c
      ([], { kept with mode := .quoted mark })
  | .comment => if c = '\n' then { s with mode := .plain }.endCommand else ([], s)
  | .ampersand =>
      let s := { s with mode := .plain }
      if c = '>' then ([], s.redirect)
      else (s.endCommand.1 ++ (s.endCommand.2.readPlain c).1, (s.endCommand.2.readPlain c).2)
  | .redirection =>
      if c ∈ ['<', '>', '&', '|'] then ([], s) else { s with mode := .plain }.readPlain c

end Shell

def shellReader : Reader Shell (List Word) :=
  ⟨.start, Shell.step, fun s ↦ [s.endWord.words]⟩

def commands (script : List Char) : List (List Word) :=
  shellReader.items script

/-- The words given after each word `option`, empty if nothing follows. -/
def valuesOf (option : Word) : List Word → List Word
  | [] => []
  | w :: words =>
      if w = option then words.headD [] :: valuesOf option words else valuesOf option words

/-- The words after the first place where those of `command` stand. -/
def argumentsOf (command : List Word) : List Word → List Word
  | [] => []
  | w :: words =>
      if command <+: w :: words then (w :: words).drop command.length
      else argumentsOf command words

/-- The values of an option in all uses of a command. -/
def optionValues (command : List Word) (option : Word) (script : List Char) : List Word :=
  (commands script).flatMap fun words ↦ valuesOf option (argumentsOf command words)

example : optionValues ["ip".toList, "add".toList] "id".toList
    "ip add a 2>&1 id 5 # id 6\nsudo ip add b 'id' \"7\"; id 8".toList =
      ["5".toList, "7".toList] := by decide

/-- Between two words of a command. -/
def Shell.between (s : Shell) : Bool :=
  s.mode = .plain && s.text.isNone && !s.target

/-- Wherever the text `lead` stands, it stands between words of a command that
begins with those of `command`. -/
def InCommand (command : List Word) (script lead : List Char) : Prop :=
  ∀ n ≤ script.length, lead <+: script.drop n →
    (shellReader.after shellReader.start (script.take n)).between ∧
      command <+: (shellReader.after shellReader.start (script.take n)).words

instance (command : List Word) (script lead : List Char) :
    Decidable (InCommand command script lead) :=
  Nat.decidableBallLE _ _

namespace Shell

/-- The command goes on or has ended, with its words so far at its beginning. -/
def Grows (s : Shell) (r : List (List Word) × Shell) : Prop :=
  r.1 = [] ∧ s.words <+: r.2.words ∨ ∃ w rest, r.1 = w :: rest ∧ s.words <+: w

theorem words_endWord (s : Shell) : s.words <+: s.endWord.words := by
  unfold endWord
  split
  · exact List.prefix_rfl
  · dsimp only
    split
    · exact List.prefix_rfl
    · exact List.prefix_append _ _

theorem grows_endCommand (s : Shell) : s.Grows s.endCommand := by
  unfold endCommand
  split
  · exact .inr ⟨_, [], rfl, s.words_endWord⟩
  · exact .inl ⟨rfl, s.words_endWord⟩

theorem words_redirect (s : Shell) : s.words <+: s.redirect.words := by
  unfold redirect
  split
  · exact List.prefix_rfl
  · exact s.words_endWord

theorem grows_readPlain (s : Shell) (c : Char) : s.Grows (s.readPlain c) := by
  unfold readPlain
  split_ifs
  · exact .inl ⟨rfl, List.prefix_rfl⟩
  · exact .inl ⟨rfl, List.prefix_rfl⟩
  · exact .inl ⟨rfl, List.prefix_rfl⟩
  · exact .inl ⟨rfl, s.words_endWord⟩
  · exact .inl ⟨rfl, s.words_redirect⟩
  · exact .inl ⟨rfl, s.words_endWord⟩
  · exact .inl ⟨rfl, s.words_endWord⟩
  · exact s.grows_endCommand
  · exact .inl ⟨rfl, s.words_endWord⟩
  · exact .inl ⟨rfl, List.prefix_rfl⟩

/-- Two steps in a row. -/
theorem Grows.then {s : Shell} {r r' : List (List Word) × Shell} (h : s.Grows r)
    (h' : r.2.Grows r') : s.Grows (r.1 ++ r'.1, r'.2) := by
  rcases h with ⟨hnil, hwords⟩ | ⟨w, rest, hout, hw⟩
  · rw [hnil, List.nil_append]
    rcases h' with ⟨hnil', hwords'⟩ | ⟨w, rest, hout, hw⟩
    · exact .inl ⟨hnil', hwords.trans hwords'⟩
    · exact .inr ⟨w, rest, hout, hwords.trans hw⟩
  · exact .inr ⟨w, rest ++ r'.1, by rw [hout]; rfl, hw⟩

theorem grows_step (s : Shell) (c : Char) : s.Grows (s.step c) := by
  obtain ⟨words, text, target, depth, mode⟩ := s
  cases mode with
  | plain => exact grows_readPlain _ c
  | quoted mark =>
      simp only [step]
      split_ifs <;> exact .inl ⟨rfl, List.prefix_rfl⟩
  | escaped mark =>
      cases mark with
      | none =>
          refine .inl ⟨rfl, ?_⟩
          simp only [step]
          split_ifs <;> exact List.prefix_rfl
      | some mark =>
          refine .inl ⟨rfl, ?_⟩
          simp only [step]
          split_ifs <;> exact List.prefix_rfl
  | comment =>
      simp only [step]
      split_ifs
      · exact grows_endCommand _
      · exact .inl ⟨rfl, List.prefix_rfl⟩
  | ampersand =>
      simp only [step]
      split_ifs
      · exact .inl ⟨rfl, words_redirect ⟨words, text, target, depth, .plain⟩⟩
      · exact (grows_endCommand _).then (grows_readPlain _ c)
  | redirection =>
      simp only [step]
      split_ifs
      · exact .inl ⟨rfl, List.prefix_rfl⟩
      · exact grows_readPlain _ c

end Shell

/-- The words so far will begin a command. -/
theorem exists_command (s : Shell) (text : List Char) :
    ∃ words ∈ shellReader.itemsFrom s text, s.words <+: words := by
  induction text generalizing s with
  | nil => exact ⟨s.endWord.words, List.mem_singleton_self _, s.words_endWord⟩
  | cons c text ih =>
      rcases s.grows_step c with ⟨-, hwords⟩ | ⟨w, rest, hout, hw⟩
      · obtain ⟨words, hmem, hprefix⟩ := ih (s.step c).2
        exact ⟨words, List.mem_append_right _ hmem, hwords.trans hprefix⟩
      · refine ⟨w, List.mem_append_left _ ?_, hw⟩
        change w ∈ (s.step c).1
        rw [hout]
        exact List.mem_cons_self

/-! ## Reading an option -/

/-- A character that is only a part of its word. -/
def isOrdinary (c : Char) : Bool :=
  c.isAlphanum || c = '_'

section Options

variable {s : Shell} {w option value : Word} {command : List Word} {script : List Char}

theorem ne_of_ordinary {c d : Char} (hc : isOrdinary c = true) (hd : isOrdinary d = false) :
    c ≠ d := by
  rintro rfl
  rw [hc] at hd
  cases hd

theorem not_blank_of_ordinary {c : Char} (hc : isOrdinary c = true) : isBlank c = false := by
  have hne (d : Char) := ne_of_ordinary (d := d) hc
  simp [isBlank, hne ' ' (by decide), hne '\t' (by decide), hne '\r' (by decide)]

theorem open_of_ordinary (hw : w.all isOrdinary) : Open w := by
  intro c hc
  have hne (d : Char) := ne_of_ordinary (d := d) (List.all_eq_true.mp hw c hc)
  exact ⟨hne '#' (by decide), by
    simp [endsStatement, hne '\n' (by decide), hne '{' (by decide), hne '}' (by decide)]⟩

theorem strip_of_ordinary (hw : w.all isOrdinary) : strip w = w := by
  have hblank : ∀ c ∈ w, isBlank c = false :=
    fun c hc ↦ not_blank_of_ordinary (List.all_eq_true.mp hw c hc)
  have hkeep (l : List Char) (hl : ∀ c ∈ l, isBlank c = false) : l.dropWhile isBlank = l := by
    cases l with
    | nil => rfl
    | cons c l => rw [List.dropWhile_cons_of_neg (by simp [hl c List.mem_cons_self])]
  rw [strip, hkeep w hblank, List.rdropWhile,
    hkeep w.reverse fun c hc ↦ hblank c (List.mem_reverse.mp hc), List.reverse_reverse]

theorem readPlain_ordinary (s : Shell) {c : Char} (hc : isOrdinary c = true) :
    s.readPlain c = ([], s.push c) := by
  have hne (d : Char) := ne_of_ordinary (d := d) hc
  have hblank := not_blank_of_ordinary hc
  simp [Shell.readPlain, hne '\\' (by decide), hne '\'' (by decide), hne '"' (by decide),
    hne '#' (by decide), hne '&' (by decide), hne '<' (by decide), hne '>' (by decide),
    hne '(' (by decide), hne ')' (by decide), hne '\n' (by decide), hne ';' (by decide),
    hne '|' (by decide), hblank]

theorem itemsFrom_ordinary (hs : s.mode = .plain) (hw : w.all isOrdinary) (hne : w ≠ [])
    (text : List Char) :
    shellReader.itemsFrom s (w ++ text) =
      shellReader.itemsFrom { s with text := some (s.text.getD [] ++ w) } text := by
  induction w generalizing s with
  | nil => exact absurd rfl hne
  | cons c w ih =>
      obtain ⟨hc, hw⟩ := Bool.and_eq_true_iff.mp hw
      have hstep : shellReader.step s c = ([], s.push c) := by
        change s.step c = _
        rw [Shell.step, hs]
        exact readPlain_ordinary s hc
      rw [List.cons_append, Reader.itemsFrom_cons_of_silent hstep]
      cases w with
      | nil => rfl
      | cons d w =>
          rw [ih (s := s.push c) hs hw (List.cons_ne_nil d w)]
          simp [Shell.push]

theorem itemsFrom_word (hs : s.between) (hw : w.all isOrdinary) (hne : w ≠ [])
    (text : List Char) :
    shellReader.itemsFrom s (w ++ ' ' :: text) =
      shellReader.itemsFrom { s with words := s.words ++ [w] } text := by
  obtain ⟨words, text', target, depth, mode⟩ := s
  simp only [Shell.between, Bool.and_eq_true, decide_eq_true_eq, Option.isNone_iff_eq_none,
    Bool.not_eq_true'] at hs
  obtain ⟨⟨rfl, rfl⟩, rfl⟩ := hs
  rw [itemsFrom_ordinary rfl hw hne]
  exact Reader.itemsFrom_cons_of_silent rfl text

theorem mem_valuesOf (option value : Word) (before after : List Word) :
    value ∈ valuesOf option (before ++ option :: value :: after) := by
  induction before with
  | nil => simp [valuesOf]
  | cons w before ih =>
      rw [List.cons_append, valuesOf]
      split
      · exact List.mem_cons_of_mem _ ih
      · exact ih

theorem argumentsOf_append (hne : command ≠ []) (arguments : List Word) :
    argumentsOf command (command ++ arguments) = arguments := by
  cases command with
  | nil => exact absurd rfl hne
  | cons w command =>
      rw [List.cons_append, argumentsOf, ← List.cons_append, if_pos (List.prefix_append _ _),
        List.drop_left]

/-- An option with its value, in place in a command. -/
theorem exists_option_of_infix (hin : InCommand command script (option ++ [' ']))
    (hoption : option.all isOrdinary) (hoption_ne : option ≠ []) (hvalue : value.all isOrdinary)
    (hvalue_ne : value ≠ []) {rest : List Char}
    (h : option ++ ' ' :: (value ++ ' ' :: rest) <:+: script) :
    ∃ arguments, command ++ arguments ∈ commands script ∧ value ∈ valuesOf option arguments := by
  obtain ⟨pre, post, rfl⟩ := h
  obtain ⟨hbetween, before, hbefore⟩ := hin pre.length (by simp) (by simp)
  rw [List.append_assoc pre, List.take_left] at hbetween hbefore
  set s := shellReader.after shellReader.start pre with hs
  have hread : shellReader.itemsFrom s (option ++ ' ' :: (value ++ ' ' :: (rest ++ post))) =
      shellReader.itemsFrom { s with words := s.words ++ [option] ++ [value] } (rest ++ post) := by
    rw [itemsFrom_word hbetween hoption hoption_ne,
      itemsFrom_word (s := { s with words := s.words ++ [option] }) hbetween hvalue hvalue_ne]
  obtain ⟨words, hmem, after, hafter⟩ :=
    exists_command { s with words := s.words ++ [option] ++ [value] } (rest ++ post)
  rw [← hread] at hmem
  refine ⟨before ++ option :: value :: after, ?_, mem_valuesOf option value before after⟩
  have hwords : command ++ (before ++ option :: value :: after) = words := by
    rw [← hafter, ← hbefore]
    simp
  have htext : pre ++ (option ++ ' ' :: (value ++ ' ' :: rest)) ++ post =
      pre ++ (option ++ ' ' :: (value ++ ' ' :: (rest ++ post))) := by
    simp
  rw [hwords, commands, htext]
  exact Reader.mem_items_of_mem_itemsFrom _ hmem

theorem mem_optionValues (hne : command ≠ []) {arguments : List Word}
    (hmem : command ++ arguments ∈ commands script) (hvalue : value ∈ valuesOf option arguments) :
    value ∈ optionValues command option script := by
  refine List.mem_flatMap.mpr ⟨_, hmem, ?_⟩
  rwa [argumentsOf_append hne]

end Options

end ConfigText
