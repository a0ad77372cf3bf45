import StepPhrase.Argument.Scan

/-!
# Arguments

An argument is a value together with the shape of the text it was written as. The shape is read off
before the quotes go, so `'12'` arrives as the string `12` and not as a number.
-/

namespace StepPhrase

/-- A value and the shape in which it was written. The shape is kept beside the value because it
cannot be read off the value any more once the quotes are gone. -/
structure Argument where
  value : Text
  shape : Shape
  deriving DecidableEq, Repr

namespace Argument

/-- An argument as written: the token of a call with its quotes, and the shape that the token has.
-/
def ofToken (t : Text) : Argument := ⟨t, Shape.ofText t⟩

/-- An argument as it is handed on, without its quotes. The shape stays what it was, so a string in
quotes arrives as a string even where its inside looks like a number. -/
def unquoted (a : Argument) : Argument := { a with value := unquote a.value }

end Argument

end StepPhrase
