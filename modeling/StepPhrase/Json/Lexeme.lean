import StepPhrase.Json.Value

/-!
# Lexemes of JSON

A JSON text is a sequence of marks, strings, and words such as numbers and `true`, with blanks in
between. `Lexeme.ofText?` takes a text apart. A word is as long as possible; whether it means
anything is decided when it is complete.
-/

namespace StepPhrase.Json

/-- A unit of JSON text. Strings have their escapes resolved and words their values, so that nothing
has to be read twice. -/
inductive Lexeme where
  /-- A bracket, a brace, a comma or a colon. -/
  | mark (c : Char)
  | string (t : Text)
  /-- A number, a truth value or null. -/
  | scalar (value : Json)

namespace Lexeme

/-- Whether a character is a lexeme of its own. -/
def isMark (c : Char) : Bool :=
  c == '{' || c == '}' || c == '[' || c == ']' || c == ':' || c == ','

/-- Whether a character is a blank between lexemes. -/
def isBlank (c : Char) : Bool := c == ' ' || c == '\n' || c == '\t' || c == '\r'

/-- Whether a character may be part of a word. -/
def isWordChar (c : Char) : Bool := c.isAlphanum || c == '+' || c == '-' || c == '.'

/-- The value that a word stands for. -/
def ofWord? (word : Text) : Option Lexeme :=
  if word = "null".toList then some (.scalar .null)
  else if word = "true".toList then some (.scalar (.bool true))
  else if word = "false".toList then some (.scalar (.bool false))
  else (Number.read? word).map (.scalar ∘ .number)

/-- The character that a backslash and this one stand for. -/
def escapee? (c : Char) : Option Char :=
  if c = '"' ∨ c = '\\' ∨ c = '/' then some c
  else if c = 'b' then some '\x08'
  else if c = 'f' then some '\x0c'
  else if c = 'n' then some '\n'
  else if c = 'r' then some '\r'
  else if c = 't' then some '\t'
  else none

/-- The value of a digit to base sixteen. -/
def hexValue? (c : Char) : Option Nat :=
  if c.isDigit then some (c.toNat - '0'.toNat)
  else if 'a' ≤ c ∧ c ≤ 'f' then some (c.toNat - 'a'.toNat + 10)
  else if 'A' ≤ c ∧ c ≤ 'F' then some (c.toNat - 'A'.toNat + 10)
  else none

/-- Where a reader of lexemes stands. What it has read of a lexeme comes last first; `pending` is
the first half of a surrogate pair, whose second half has to follow. -/
inductive Reading where
  /-- Between lexemes. -/
  | between
  /-- In a word. -/
  | word (read : Text)
  /-- In a string. -/
  | inString (read : Text)
  /-- Behind a backslash in a string. -/
  | escape (read : Text) (pending : Option Nat)
  /-- In a code unit to base sixteen, with so many digits to come. -/
  | codeUnit (read : Text) (pending : Option Nat) (digits unit : Nat)
  /-- Behind the first half of a surrogate pair. -/
  | paired (read : Text) (first : Nat)

/-- What follows a complete code unit. A first half of a surrogate pair asks for a second, a second
half has to follow a first, and any other unit is a character. -/
def afterUnit (read : Text) (pending : Option Nat) (unit : Nat) : Option Reading :=
  let isFirst := 0xD800 ≤ unit ∧ unit < 0xDC00
  let isSecond := 0xDC00 ≤ unit ∧ unit < 0xE000
  match pending with
  | none =>
    if isFirst then some (.paired read unit)
    else if isSecond then none
    else some (.inString (Char.ofNat unit :: read))
  | some first =>
    if isSecond then
      let code := 0x10000 + (first - 0xD800) * 0x400 + (unit - 0xDC00)
      some (.inString (Char.ofNat code :: read))
    else none

/-- Reads a character between lexemes, with the lexemes so far last first. -/
def stepBetween (done : List Lexeme) (c : Char) : Option (Reading × List Lexeme) :=
  if isBlank c then some (.between, done)
  else if isMark c then some (.between, .mark c :: done)
  else if c = '"' then some (.inString [], done)
  else if isWordChar c then some (.word [c], done)
  else none

/-- Reads a character, with the lexemes so far last first. -/
def step : Reading → List Lexeme → Char → Option (Reading × List Lexeme)
  | .between, done, c => stepBetween done c
  | .word read, done, c =>
    if isWordChar c then some (.word (c :: read), done)
    else (ofWord? read.reverse).bind fun lexeme => stepBetween (lexeme :: done) c
  | .inString read, done, c =>
    if c = '"' then some (.between, .string read.reverse :: done)
    else if c = '\\' then some (.escape read none, done)
    else if c.toNat < 0x20 then none
    else some (.inString (c :: read), done)
  | .escape read pending, done, c =>
    if c = 'u' then some (.codeUnit read pending 4 0, done)
    else if pending.isSome then none
    else (escapee? c).map fun e => (.inString (e :: read), done)
  | .codeUnit read pending digits unit, done, c =>
    (hexValue? c).bind fun value =>
      if digits = 1 then (afterUnit read pending (16 * unit + value)).map (·, done)
      else some (.codeUnit read pending (digits - 1) (16 * unit + value), done)
  | .paired read first, done, c =>
    if c = '\\' then some (.escape read (some first), done) else none

/-- Reads on to the end of a text. -/
def readFrom : Reading → List Lexeme → Text → Option (List Lexeme)
  | .between, done, [] => some done.reverse
  | .word read, done, [] => (ofWord? read.reverse).map fun lexeme => (lexeme :: done).reverse
  | _, _, [] => none
  | reading, done, c :: t =>
    match step reading done c with
    | some (reading, done) => readFrom reading done t
    | none => none

/-- The lexemes of a text. -/
def ofText? (t : Text) : Option (List Lexeme) := readFrom .between [] t

end Lexeme

end StepPhrase.Json
