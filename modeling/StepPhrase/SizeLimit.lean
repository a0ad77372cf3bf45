import StepPhrase.Environment

/-!
# Size limits

Calls and definitions beyond a length in bytes are not matched. The limit can be set through an
environment variable.
-/

namespace StepPhrase

/-- The length, in bytes, up to which texts are matched. -/
structure SizeLimit where
  maxBytes : Nat
  deriving DecidableEq, Repr

namespace SizeLimit

/-- The limit that holds when none is set. -/
def default : SizeLimit := ⟨64 * 1024⟩

/-- Whether a text is short enough. The limit itself is permitted, and bytes are counted, not
characters. -/
def permits (limit : SizeLimit) (t : Text) : Bool := t.byteLength ≤ limit.maxBytes

/-- The environment variable that sets the limit. -/
def variableName : Text := "STEPMATCH_MAX_INPUT_LEN".toList

/-- A variable with a value that it must not have. -/
structure Invalid where
  variableName : Text
  reason : Text
  deriving DecidableEq, Repr

/-- The complaint about a variable. -/
def Invalid.message (e : Invalid) : Text :=
  "invalid value for `".toList ++ e.variableName ++ "`: ".toList ++ e.reason

/-- Limits are machine words. -/
def bound : Nat := UInt64.size

/-- The positive number that a text denotes in decimal digits, with or without a plus sign. Zero is
none, and neither is a number that is no machine word. -/
def positive? (t : Text) : Option Nat :=
  let digits := match t with
    | '+' :: digits => digits
    | _ => t
  if digits ≠ [] ∧ digits.all Char.isDigit then
    let n := Nat.ofDigitChars 10 digits 0
    if 0 < n ∧ n < bound then some n else none
  else none

/-- The limit that a text sets, whatever the blanks around it. The complaint shows the text with its
blanks. -/
def ofText? (t : Text) : Except Invalid SizeLimit :=
  match positive? t.trim with
  | some n => .ok ⟨n⟩
  | none => .error ⟨variableName, "'".toList ++ t ++ "' is not a positive integer".toList⟩

/-- The limit that the environment sets, or the usual one where the variable is not there. A
variable that is there has to be a number. -/
def ofEnvironment? (environment : Environment) : Except Invalid SizeLimit :=
  match environment.lookup variableName with
  | none => .ok default
  | some t => ofText? t

end SizeLimit

end StepPhrase
