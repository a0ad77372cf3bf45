import StepPhrase.Template.Item

/-!
# Pieces of a template

To a matcher a definition is literal text with slots in it. Its pieces are the slots and the
stretches of literal characters between them, with the backslashes gone: no literal is empty and no
two are adjacent. A slot keeps its place in the definition, and the position it asks for among the
arguments.
-/

namespace StepPhrase.Template

/-- A slot of a definition. Two slots may be written alike, and their offsets tell them apart. -/
structure Slot where
  /-- The slot as written, braces included. -/
  token : Text
  /-- The offset of its opening brace, in bytes. -/
  start : Nat
  /-- The position among the arguments that it asks for. -/
  index : Option Nat
  deriving DecidableEq, Repr

namespace Slot

/-- Positions are machine words: a number from here on asks for none. -/
def indexBound : Nat := UInt64.size

/-- The position that the text in the braces asks for: the number it begins with, if any. What
follows the digits is only a name, and so is a number that is no machine word. -/
def indexOf (inside : Text) : Option Nat :=
  match inside.takeWhile Char.isDigit with
  | [] => none
  | digits =>
    let n := Nat.ofDigitChars 10 digits 0
    if n < indexBound then some n else none

/-- The slot with this text in its braces, at this offset. -/
def ofInside (start : Nat) (inside : Text) : Slot :=
  ⟨(Item.slot inside).source, start, indexOf inside⟩

/-- The offset just behind the closing brace, in bytes. -/
def stop (s : Slot) : Nat := s.start + s.token.byteLength

end Slot

/-- A stretch of literal text or a slot, with nothing left of the way in which the definition wrote
it. -/
inductive Piece where
  | literal (t : Text)
  | slot (s : Slot)
  deriving DecidableEq, Repr

namespace Piece

/-- One more literal character in front. It joins the literal that the pieces begin with, so no two
literals are ever adjacent. -/
def consChar (c : Char) : List Piece → List Piece
  | .literal t :: pieces => .literal (c :: t) :: pieces
  | pieces => .literal [c] :: pieces

/-- The pieces of a sequence of items whose first one stands at this offset. A backslash at the very
end is literal text, and the offsets go by the items as written, with their backslashes. -/
def ofItems (start : Nat) : List Item → List Piece
  | [] => []
  | item :: items =>
    let pieces := ofItems (start + item.byteLength) items
    match item with
    | .plain c | .escaped c => consChar c pieces
    | .backslash => consChar '\\' pieces
    | .slot inside => .slot (Slot.ofInside start inside) :: pieces

/-- The slot that a piece is. -/
def slot? : Piece → Option Slot
  | .literal _ => none
  | .slot s => some s

/-- The literal that a sequence of pieces begins with, empty if it begins with none. -/
def leadingLiteral : List Piece → Text
  | .literal t :: _ => t
  | _ => []

@[simp] theorem leadingLiteral_nil : leadingLiteral [] = [] := rfl

@[simp] theorem leadingLiteral_literal (t : Text) (pieces : List Piece) :
    leadingLiteral (.literal t :: pieces) = t := rfl

@[simp] theorem leadingLiteral_slot (s : Slot) (pieces : List Piece) :
    leadingLiteral (.slot s :: pieces) = [] := rfl

end Piece

/-- A slot and the literals directly before and after it, empty where there is none. -/
structure Frame where
  lead : Text
  slot : Slot
  boundary : Text
  deriving DecidableEq, Repr

namespace Frame

/-- The frames of a sequence of pieces that follows the literal `lead`. A literal between two slots
is behind the one and in front of the other, so it occurs in two frames. -/
def ofPieces (lead : Text) : List Piece → List Frame
  | [] => []
  | .literal t :: pieces => ofPieces t pieces
  | .slot s :: pieces => ⟨lead, s, Piece.leadingLiteral pieces⟩ :: ofPieces [] pieces

end Frame

end StepPhrase.Template
