import PrototypeNet.Lib.Runs
import PrototypeNet.Lib.Text

/-!
# JSON texts

The reader is the scanner of Go's `encoding/json`, a machine that takes one
character at a time, with the values it has read so far on its stack.  A text
is a run of the machine, so a text that was cut off is a run that has not come
to its end.  The printer indents like `MarshalIndent`.
-/

namespace Json

open Runs Text

inductive Value
  | null
  | bool (b : Bool)
  | num (text : List Char)
  | str (s : List Char)
  | arr (elems : List Value)
  | obj (fields : List (List Char × Value))

/-! ## Strings -/

/-- Where the reader is in a string: behind a whole character, behind a
backslash, or in the digits of `\u`. -/
inductive Escape
  | none
  | started
  | hex (left value : ℕ)
  deriving DecidableEq, Repr

/-- A string so far.  The first half of a surrogate pair waits in `half` for
the second. -/
structure Unfinished where
  escape : Escape
  half : Option ℕ
  read : List Char
  deriving DecidableEq, Repr

def Unfinished.empty : Unfinished := ⟨.none, none, []⟩

def replacement : Char := Char.ofNat 0xFFFD

/-- A half without its second half is replaced. -/
def Unfinished.text (p : Unfinished) : List Char :=
  if p.half.isSome then p.read ++ [replacement] else p.read

def Unfinished.push (p : Unfinished) (c : Char) : Unfinished :=
  ⟨.none, none, p.text ++ [c]⟩

/-- A code unit from `\u`. -/
def Unfinished.pushUnit (p : Unfinished) (unit : ℕ) : Unfinished :=
  match p.half with
  | some high =>
      if 0xDC00 ≤ unit ∧ unit < 0xE000 then
        ⟨.none, none,
          p.read ++ [Char.ofNat (0x10000 + (high - 0xD800) * 0x400 + (unit - 0xDC00))]⟩
      else if 0xD800 ≤ unit ∧ unit < 0xDC00 then ⟨.none, some unit, p.text⟩
      else p.push (Char.ofNat unit)
  | none =>
      if 0xDC00 ≤ unit ∧ unit < 0xE000 then p.push replacement
      else if 0xD800 ≤ unit ∧ unit < 0xDC00 then ⟨.none, some unit, p.read⟩
      else p.push (Char.ofNat unit)

def simpleEscape (c : Char) : Option Char :=
  if c = '"' ∨ c = '\\' ∨ c = '/' then some c
  else if c = 'b' then some '\x08'
  else if c = 'f' then some '\x0c'
  else if c = 'n' then some '\n'
  else if c = 'r' then some '\r'
  else if c = 't' then some '\t'
  else none

/-- One character of a string other than the quote that ends it. -/
def Unfinished.step (p : Unfinished) (c : Char) : Option Unfinished :=
  match p.escape with
  | .none =>
      if c = '\\' then some { p with escape := .started }
      else if c.toNat < 0x20 then none
      else some (p.push c)
  | .started =>
      if c = 'u' then some { p with escape := .hex 4 0 }
      else (simpleEscape c).map p.push
  | .hex left value =>
      (hexDigit c).map fun d ↦
        if left ≤ 1 then p.pushUnit (value * 16 + d)
        else { p with escape := .hex (left - 1) (value * 16 + d) }

/-! ## Numbers -/

inductive NumState
  | neg
  | zero
  | int
  | dot
  | frac
  | exp
  | expSign
  | expDigits
  deriving DecidableEq, Repr

def isDigit (c : Char) : Bool :=
  decide (48 ≤ c.toNat ∧ c.toNat ≤ 57)

def numBegin (c : Char) : Option NumState :=
  if c = '-' then some .neg else if c = '0' then some .zero
  else if isDigit c then some .int else none

def numStep (s : NumState) (c : Char) : Option NumState :=
  match s with
  | .neg => if c = '0' then some .zero else if isDigit c then some .int else none
  | .zero => if c = '.' then some .dot else if c = 'e' ∨ c = 'E' then some .exp else none
  | .int =>
      if isDigit c then some .int else if c = '.' then some .dot
      else if c = 'e' ∨ c = 'E' then some .exp else none
  | .dot => if isDigit c then some .frac else none
  | .frac => if isDigit c then some .frac else if c = 'e' ∨ c = 'E' then some .exp else none
  | .exp =>
      if c = '+' ∨ c = '-' then some .expSign else if isDigit c then some .expDigits else none
  | .expSign => if isDigit c then some .expDigits else none
  | .expDigits => if isDigit c then some .expDigits else none

def NumState.isEnd : NumState → Bool
  | .zero | .int | .frac | .expDigits => true
  | _ => false

/-! ## The machine -/

/-- What is open around the value being read: an array with the elements
before, an object with the fields before, or such an object in the value of a
further field. -/
inductive Frame
  | arr (elems : List Value)
  | obj (fields : List (List Char × Value))
  | field (fields : List (List Char × Value)) (name : List Char)

inductive Mode
  | value
  | valueOrClose
  | name
  | nameOrClose
  | inName (p : Unfinished)
  | colon
  | inString (p : Unfinished)
  | inNumber (s : NumState) (read : List Char)
  | inWord (left : List Char) (v : Value)
  | afterElem
  | afterField
  | top (v : Value)

structure Reader where
  mode : Mode
  stack : List Frame

def Reader.init : Reader := ⟨.value, []⟩

def maxNestingDepth : ℕ := 10000

def isSpace (c : Char) : Bool :=
  c = ' ' || c = '\t' || c = '\r' || c = '\n'

/-- A value is complete. -/
def deliver (v : Value) : List Frame → Option Reader
  | [] => some ⟨.top v, []⟩
  | .arr elems :: stack => some ⟨.afterElem, .arr (elems ++ [v]) :: stack⟩
  | .field fields name :: stack => some ⟨.afterField, .obj (fields ++ [(name, v)]) :: stack⟩
  | .obj _ :: _ => none

def openFrame (f : Frame) (mode : Mode) (stack : List Frame) : Option Reader :=
  if stack.length < maxNestingDepth then some ⟨mode, f :: stack⟩ else none

def closeArr : List Frame → Option Reader
  | .arr elems :: stack => deliver (.arr elems) stack
  | _ => none

def closeObj : List Frame → Option Reader
  | .obj fields :: stack => deliver (.obj fields) stack
  | _ => none

def nameRead (name : List Char) : List Frame → Option Reader
  | .obj fields :: stack => some ⟨.colon, .field fields name :: stack⟩
  | _ => none

def beginValue (c : Char) (stack : List Frame) : Option Reader :=
  if c = '"' then some ⟨.inString .empty, stack⟩
  else if c = '[' then openFrame (.arr []) .valueOrClose stack
  else if c = '{' then openFrame (.obj []) .nameOrClose stack
  else if c = 't' then some ⟨.inWord ['r', 'u', 'e'] (.bool true), stack⟩
  else if c = 'f' then some ⟨.inWord ['a', 'l', 's', 'e'] (.bool false), stack⟩
  else if c = 'n' then some ⟨.inWord ['u', 'l', 'l'] .null, stack⟩
  else (numBegin c).map fun s ↦ ⟨.inNumber s [c], stack⟩

/-- One character behind a value. -/
def afterValue (r : Reader) (c : Char) : Option Reader :=
  if isSpace c then some r
  else
    match r.mode with
    | .afterElem =>
        if c = ',' then some ⟨.value, r.stack⟩ else if c = ']' then closeArr r.stack else none
    | .afterField =>
        if c = ',' then some ⟨.name, r.stack⟩ else if c = '}' then closeObj r.stack else none
    | _ => none

def step (r : Reader) (c : Char) : Option Reader :=
  match r.mode with
  | .value => if isSpace c then some r else beginValue c r.stack
  | .valueOrClose =>
      if isSpace c then some r else if c = ']' then closeArr r.stack else beginValue c r.stack
  | .name =>
      if isSpace c then some r else if c = '"' then some ⟨.inName .empty, r.stack⟩ else none
  | .nameOrClose =>
      if isSpace c then some r else if c = '}' then closeObj r.stack
      else if c = '"' then some ⟨.inName .empty, r.stack⟩ else none
  | .inName p =>
      if p.escape = .none ∧ c = '"' then nameRead p.text r.stack
      else (p.step c).map fun p ↦ ⟨.inName p, r.stack⟩
  | .colon =>
      if isSpace c then some r else if c = ':' then some ⟨.value, r.stack⟩ else none
  | .inString p =>
      if p.escape = .none ∧ c = '"' then deliver (.str p.text) r.stack
      else (p.step c).map fun p ↦ ⟨.inString p, r.stack⟩
  | .inNumber s read =>
      match numStep s c with
      | some s => some ⟨.inNumber s (read ++ [c]), r.stack⟩
      | none =>
          -- A number ends with the character behind it.
          if s.isEnd then (deliver (.num read) r.stack).bind fun r ↦ afterValue r c else none
  | .inWord left v =>
      match left with
      | [] => none
      | w :: left =>
          if c = w then if left = [] then deliver v r.stack else some ⟨.inWord left v, r.stack⟩
          else none
  | .afterElem => afterValue r c
  | .afterField => afterValue r c
  | .top _ => afterValue r c

/-- The value of a text that ends here. -/
def Reader.finish (r : Reader) : Option Value :=
  match r.mode, r.stack with
  | .top v, [] => some v
  | .inNumber s read, [] => if s.isEnd then some (.num read) else none
  | _, _ => none

inductive SyntaxError
  | invalidCharacter
  | unexpectedEnd
  deriving DecidableEq, Repr

def parse (cs : List Char) : Except SyntaxError Value :=
  match play step .init cs with
  | none => .error .invalidCharacter
  | some r =>
      match r.finish with
      | none => .error .unexpectedEnd
      | some v => .ok v

/-! ## The printer -/

def unicodeEscape (n : ℕ) : List Char :=
  ['\\', 'u', (n / 4096 % 16).digitChar, (n / 256 % 16).digitChar, (n / 16 % 16).digitChar,
    (n % 16).digitChar]

/-- HTML characters are escaped as well. -/
def escapeChar (c : Char) : List Char :=
  if c = '"' ∨ c = '\\' then ['\\', c]
  else if c = '\x08' then ['\\', 'b']
  else if c = '\x0c' then ['\\', 'f']
  else if c = '\n' then ['\\', 'n']
  else if c = '\r' then ['\\', 'r']
  else if c = '\t' then ['\\', 't']
  else if c.toNat < 0x20 ∨ c = '<' ∨ c = '>' ∨ c = '&' ∨ c.toNat = 0x2028 ∨ c.toNat = 0x2029 then
    unicodeEscape c.toNat
  else [c]

def printString (s : List Char) : List Char :=
  '"' :: (s.flatMap escapeChar ++ ['"'])

def newline (depth : ℕ) : List Char :=
  '\n' :: List.replicate (2 * depth) ' '

mutual

def print (depth : ℕ) : Value → List Char
  | .null => ['n', 'u', 'l', 'l']
  | .bool true => ['t', 'r', 'u', 'e']
  | .bool false => ['f', 'a', 'l', 's', 'e']
  | .num text => text
  | .str s => printString s
  | .arr [] => ['[', ']']
  | .arr (v :: elems) =>
      '[' :: (newline (depth + 1) ++ (print (depth + 1) v ++ printElems depth elems))
  | .obj [] => ['\x7b', '\x7d']
  | .obj ((name, v) :: fields) =>
      '\x7b' :: (newline (depth + 1) ++ (printString name ++ ':' :: ' ' ::
        (print (depth + 1) v ++ printFields depth fields)))

/-- The elements behind the first one. -/
def printElems (depth : ℕ) : List Value → List Char
  | [] => newline depth ++ [']']
  | v :: elems =>
      ',' :: (newline (depth + 1) ++ (print (depth + 1) v ++ printElems depth elems))

def printFields (depth : ℕ) : List (List Char × Value) → List Char
  | [] => newline depth ++ ['\x7d']
  | (name, v) :: fields =>
      ',' :: (newline (depth + 1) ++ (printString name ++ ':' :: ' ' ::
        (print (depth + 1) v ++ printFields depth fields)))

end

/-! ## Reading into a record -/

/-- A field of a record: how a value is stored in it.  A value of another type
is refused. -/
structure RecordField (σ : Type) where
  name : List Char
  store : Value → σ → Option σ

section Records

variable {σ : Type}

/-- A null leaves the field as it is. -/
def RecordField.str (name : List Char) (set : List Char → σ → σ) : RecordField σ where
  name := name
  store := fun v s ↦
    match v with
    | .str text => some (set text s)
    | .null => some s
    | _ => none

def elemText : Value → Option (List Char)
  | .str text => some text
  | .null => some []
  | _ => none

/-- A null empties the list. -/
def RecordField.strs (name : List Char) (set : List (List Char) → σ → σ) : RecordField σ where
  name := name
  store := fun v s ↦
    match v with
    | .arr elems => (elems.mapM elemText).map (set · s)
    | .null => some (set [] s)
    | _ => none

/-- Capital letters; the long `s` and the Kelvin sign are letters as well. -/
def foldChar (c : Char) : Char :=
  if 97 ≤ c.toNat ∧ c.toNat ≤ 122 then Char.ofNat (c.toNat - 32)
  else if c.toNat = 0x17F then 'S'
  else if c.toNat = 0x212A then 'K'
  else c

/-- The field of this name, or else one whose name differs in case only. -/
def matchField (fields : List (RecordField σ)) (key : List Char) : Option (RecordField σ) :=
  (fields.find? fun f ↦ f.name = key) <|>
    fields.find? fun f ↦ f.name.map foldChar = key.map foldChar

/-- A key without a field is passed over. -/
def storeField (fields : List (RecordField σ)) (s : σ) (entry : List Char × Value) : Option σ :=
  match matchField fields entry.1 with
  | some f => f.store entry.2 s
  | none => some s

inductive UnmarshalError
  | malformed (e : SyntaxError)
  | typeMismatch
  deriving DecidableEq, Repr

def storeValue (fields : List (RecordField σ)) (s : σ) : Value → Except UnmarshalError σ
  | .null => .ok s
  | .obj entries =>
      match entries.foldlM (storeField fields) s with
      | some s => .ok s
      | none => .error .typeMismatch
  | _ => .error .typeMismatch

def unmarshal (fields : List (RecordField σ)) (zero : σ) (cs : List Char) :
    Except UnmarshalError σ :=
  match parse cs with
  | .ok v => storeValue fields zero v
  | .error e => .error (.malformed e)

end Records

end Json
