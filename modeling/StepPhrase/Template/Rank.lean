import StepPhrase.Template

/-!
# Ranks

Several templates may match the same call. The one that says most about it is preferred: the one
with more literal characters, then with fewer slots, then with more slots that ask for a position.
-/

namespace StepPhrase.Template

/-- How specific a template is. The rank depends on the definition alone, its keyword included, and
not on the call. -/
structure Rank where
  /-- The number of literal characters, backslashes not counted. -/
  literalChars : Nat
  /-- The number of slots. -/
  slots : Nat
  /-- The number of slots that ask for a position. -/
  indexedSlots : Nat
  deriving DecidableEq, Repr

namespace Rank

/-- The order of ranks: greater is more specific. Literal characters decide first; among equals
fewer slots are better, and then more slots that ask for a position. -/
def compare (a b : Rank) : Ordering :=
  (Ord.compare a.literalChars b.literalChars).then
    ((Ord.compare b.slots a.slots).then (Ord.compare a.indexedSlots b.indexedSlots))

end Rank

/-- The number of literal characters of a piece. -/
def Piece.literalChars : Piece → Nat
  | .literal t => t.length
  | .slot _ => 0

/-- The rank of a template. -/
def rank (t : Template) : Rank :=
  ⟨total Piece.literalChars t.pieces, t.slots.length,
    t.slots.countP fun s => s.index.isSome⟩

end StepPhrase.Template
