import StepPhrase.Argument.Quotation
import StepPhrase.Argument.Shape

/-!
# Scanning argument tokens

One machine reads all argument tokens, a character at a time. Its first character tells which kind
of token it is in, and where a token may end its state tells the shape. A state is all that is
needed to go on, so one pass can follow many tokens that began at different places.

* `Scan.step` is one character, `Scan.run` a text;
* `Scan.shape?` is the shape of the token that ends here;
* `longestToken?` is the longest token at the front of a text, among those that what follows allows.
-/

namespace StepPhrase

/-- How far into a token the scan is. There is one state for every way in which what has been read
can go on, so two tokens in the same state can be completed by the same texts. -/
inductive Scan where
  /-- Nothing read. -/
  | start
  /-- In a map, behind anything but a closing brace. -/
  | inMap
  /-- In a map, behind a closing brace, which may be its last. -/
  | mapEnd
  /-- In a list, behind anything but a closing bracket. -/
  | inList
  /-- In a list, behind a closing bracket, which may be its last. -/
  | listEnd
  /-- In a quotation. -/
  | inQuotes (q : Quote)
  /-- In a quotation, behind a backslash that awaits its character. -/
  | escaped (q : Quote)
  /-- Behind the closing quote. -/
  | quotesEnd
  /-- Behind the sign of a number. -/
  | signed
  /-- In the digits of a number. -/
  | integer
  /-- Behind the decimal point. -/
  | point
  /-- In the digits behind the decimal point. -/
  | fraction
  deriving DecidableEq, Repr

namespace Scan

/-- Where a token begins: its first character tells its kind. Nothing but a brace, a bracket, a
sign, a digit or a quote begins one. -/
def first (c : Char) : Option Scan :=
  if c = '{' then some .inMap
  else if c = '[' then some .inList
  else if c = '-' ∨ c = '+' then some .signed
  else if Unicode.isDecimalDigit c then some .integer
  else (Quote.ofChar? c).map .inQuotes

/-- One character further in a map or list, which must end on the line where it began. A closing
character may be the last one or belong to what is inside, which only what follows can tell. -/
def within (inside ended : Scan) (closing c : Char) : Option Scan :=
  if c = '\n' then none else if c = closing then some ended else some inside

/-- A state that only a digit leads to. -/
def digit (next : Scan) (c : Char) : Option Scan :=
  if Unicode.isDecimalDigit c then some next else none

/-- The state one character further, if a token can go on with it. Behind a closing quote none can,
whereas a map or a list may go on to the end of its line. -/
def step : Scan → Char → Option Scan
  | .start, c => first c
  | .inMap, c | .mapEnd, c => within .inMap .mapEnd '}' c
  | .inList, c | .listEnd, c => within .inList .listEnd ']' c
  | .inQuotes q, c =>
    if c = '\\' then some (.escaped q) else if c = q.mark then some .quotesEnd
      else some (.inQuotes q)
  | .escaped q, c => if c = '\\' ∨ c = q.mark then some (.inQuotes q) else none
  | .quotesEnd, _ => none
  | .signed, c => digit .integer c
  | .integer, c => if c = '.' then some .point else digit .integer c
  | .point, c | .fraction, c => digit .fraction c

/-- The state behind a text, if a token can begin with it. The walk stops at the first character
that no token can go on with. -/
def run : Scan → Text → Option Scan
  | state, [] => some state
  | state, c :: t =>
    match state.step c with
    | some next => run next t
    | none => none

/-- The shape of the token that ends in this state, if one may end there. A number without a point
is an integer, and one behind its point is not complete yet. -/
def shape? : Scan → Option Shape
  | .mapEnd => some .map
  | .listEnd => some .list
  | .quotesEnd => some .string
  | .integer => some .long
  | .fraction => some .double
  | _ => none

/-- Whether a token may end in this state. -/
def isEnd (state : Scan) : Bool := state.shape?.isSome

/-- The longest continuation of a token behind which the rest of the text is as `follows` demands:
the characters taken, last first, and the rest. -/
def longest (follows : Text → Bool) (state : Scan) (taken : Text) (best : Option (Text × Text)) :
    Text → Option (Text × Text)
  | [] => if state.isEnd && follows [] then some (taken, []) else best
  | c :: t =>
    let best := if state.isEnd && follows (c :: t) then some (taken, c :: t) else best
    match state.step c with
    | some next => longest follows next (c :: taken) best t
    | none => best

end Scan

/-- The longest token at the front of a text behind which the rest is as `follows` demands, and that
rest. -/
def longestToken? (follows : Text → Bool) (t : Text) : Option (Text × Text) :=
  (Scan.longest follows .start [] none t).map fun (taken, rest) => (taken.reverse, rest)

namespace Shape

/-- Whether a token of the shape `found` also has the shape `s`. Every shape includes itself, and an
integer is a number too. -/
def includes (s found : Shape) : Bool := s == found || (s == .double && found == .long)

/-- Whether the whole of a text is a token of a shape. The state behind the text tells, so no shape
needs a reader of its own. -/
def accepts (s : Shape) (t : Text) : Bool :=
  match (Scan.run .start t).bind Scan.shape? with
  | some found => s.includes found
  | none => false

/-- The shape of a text: the first one in order that accepts it. Any other text, such as a bare
word, is of the shape `any`, so every text has a shape. -/
def ofText (t : Text) : Shape := (order.find? (·.accepts t)).getD .any

/-- The shape of an argument that may be absent. -/
def ofText? : Option Text → Shape
  | none => .optional
  | some t => ofText t

end Shape

end StepPhrase
