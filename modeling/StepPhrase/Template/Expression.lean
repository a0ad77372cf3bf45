import StepPhrase.Engine
import StepPhrase.Template.Piece

/-!
# The expressions of a template

A literal is written into an expression character by character, and a slot as the pattern of a
token, whatever the slot is called. For a template one expression describes its calls as a whole and
one for each slot finds the value there. They are compiled when a definition is read, so a
definition with an expression that the engine does not compile is refused then.
-/

namespace StepPhrase.Template

/-- The patterns of a piece: the characters of a literal, or a token. -/
def Piece.patterns : Piece → List Pattern
  | .literal t => t.map .char
  | .slot _ => [Shape.token]

/-- The patterns of some pieces in a row. Two definitions that differ only in what they call their
slots have the same ones. -/
def bodyOf (pieces : List Piece) : List Pattern := pieces.flatMap Piece.patterns

/-- The expressions that are compiled for some pieces: one for a call as a whole, and one for the
value of each slot, which looks at the literal behind the slot only. -/
def expressionsOf (pieces : List Piece) : List Expression :=
  .whole (bodyOf pieces) :: (Frame.ofPieces [] pieces).map fun frame => .value frame.boundary

end StepPhrase.Template
