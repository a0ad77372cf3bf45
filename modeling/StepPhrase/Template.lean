import StepPhrase.Template.Expression

/-!
# Templates

A template is a definition that has been read: its text and its pieces. Reading fails where a brace
opens no slot, and for a template that the engine does not compile, which is too bulky.
-/

namespace StepPhrase

/-- A definition and the pieces that calls are matched against. The text is kept for reports and
because its length is limited where calls are matched. -/
structure Template where
  /-- The definition as written. -/
  source : Text
  /-- Its literals and slots in order. -/
  pieces : List Template.Piece
  deriving DecidableEq, Repr

namespace Template

/-- A report about a place in a definition. -/
structure Report where
  /-- What is wrong. -/
  message : Text
  /-- Where, in bytes from the start. -/
  position : Nat
  /-- The text it is about. -/
  token : Option Text
  deriving DecidableEq, Repr

/-- The report as one line. -/
def Report.display (r : Report) : Text :=
  match r.token with
  | some token =>
    r.message ++ " at `".toList ++ token ++ "` (byte ".toList ++ Text.ofNat r.position
      ++ ", zero-based)".toList
  | none => r.message ++ " at byte ".toList ++ Text.ofNat r.position ++ " (zero-based)".toList

/-- Why a definition is no template. Only the first brace that opens no slot is reported, and the
size is looked at only when there is none. -/
inductive Error where
  /-- The brace at this offset opens no slot. -/
  | badSlot (position : Nat) (fault : Fault)
  /-- The template is too bulky. -/
  | tooBulky
  deriving DecidableEq, Repr

/-- The report on a brace that opens no slot. -/
def Fault.report (position : Nat) : Fault → Report
  | .empty =>
    ⟨"empty placeholder in step definition".toList, position, some "\x7b\x7d".toList⟩
  | .unclosed rest =>
    ⟨"missing closing '\x7d' for placeholder".toList, position, some rest⟩

/-- The wording of an error. -/
def Error.message : Error → Text
  | .badSlot position fault => (fault.report position).display
  | .tooBulky =>
    "Compiled regex exceeds size limit of ".toList ++ Text.ofNat
      Expression.ceiling ++ " bytes.".toList

/-- The items of a definition, or an error at the first brace that opens no slot. Its offset is the
number of bytes of the items in front of it. -/
def items? (definition : Text) : Except Error (List Item) :=
  match readItems definition with
  | (items, none) => .ok items
  | (items, some fault) => .error (.badSlot (total Item.byteLength items) fault)

/-- The pieces of a definition: its items put together, with the offsets of the slots counted from
the start. -/
def pieces? (definition : Text) : Except Error (List Piece) :=
  (items? definition).map (Piece.ofItems 0)

/-- The slots among some pieces. -/
def slotsOf (pieces : List Piece) : List Slot := pieces.filterMap Piece.slot?

@[simp] theorem slotsOf_nil : slotsOf [] = [] := rfl

@[simp] theorem slotsOf_literal (t : Text) (pieces : List Piece) :
    slotsOf (.literal t :: pieces) = slotsOf pieces := rfl

@[simp] theorem slotsOf_slot (s : Slot) (pieces : List Piece) :
    slotsOf (.slot s :: pieces) = s :: slotsOf pieces := rfl

/-- The slots of a definition as written, in order. -/
def slotTokens? (definition : Text) : Except Error (List Text) :=
  (pieces? definition).map fun pieces => (slotsOf pieces).map Slot.token

/-- The template that a definition describes, if the engine compiles all of its expressions. -/
def ofText? (engine : Engine) (definition : Text) : Except Error Template :=
  match pieces? definition with
  | .error e => .error e
  | .ok pieces =>
    if (expressionsOf pieces).all engine.compiles then .ok ⟨definition, pieces⟩
    else .error .tooBulky

/-- The slots in order. -/
def slots (t : Template) : List Slot := slotsOf t.pieces

/-- The slots as written, in order. -/
def slotTokens (t : Template) : List Text := t.slots.map Slot.token

/-- The slots with the literals around them, in order: all that the search for the arguments of a
call goes by. -/
def frames (t : Template) : List Frame := Frame.ofPieces [] t.pieces

end Template

end StepPhrase
