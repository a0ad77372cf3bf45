import StepPhrase.Template

/-!
# Filled definitions

For a report a definition is written with values in the place of its slots, each in single quotes.
Everything else stays as written, backslashes included.
-/

namespace StepPhrase.Template

/-- Items written out, with the values in single quotes in the place of the slots. Nothing is
escaped in a value, and once the values are used up slots stay as written. -/
def fillItems : List Item → List Text → Text
  | [], _ => []
  | .slot _ :: items, value :: values => '\'' :: (value ++ '\'' :: fillItems items values)
  | item :: items, values => item.source ++ fillItems items values

/-- A definition with one value for each of its slots. It stays as it is when it cannot be read, has
no slots, or has a different number of them. -/
def fill (definition : Text) (values : List Text) : Text :=
  match items? definition with
  | .error _ => definition
  | .ok items =>
    if values ≠ [] ∧ values.length = (slotsOf (Piece.ofItems 0 items)).length then
      fillItems items values
    else definition

end StepPhrase.Template
