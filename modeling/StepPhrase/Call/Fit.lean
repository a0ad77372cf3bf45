import StepPhrase.Argument.Scan
import StepPhrase.Keyword.Leading

/-!
# Fitting calls

A call fits a template when, behind a keyword and one blank or from its first character on, it
consists of the template's pieces: literals, whatever their case, and an argument token for each
slot, with nothing left over. There may be many ways to divide a call, so the pieces are read one
after another and every place where the pieces so far may end is kept. A call of `n` characters has
`n + 1` places.
-/

namespace StepPhrase.Call

open Template

/-- For each place of a call, from the first to the last, whether the pieces read so far may end
there. -/
abbrev Places := List Bool

/-- The places of a text that are in a list. -/
def placesOf (t : Text) (positions : List Nat) : Places :=
  (List.range (t.length + 1)).map fun i => positions.contains i

/-- The places from which a literal follows, whatever the case of its letters. Only places where the
pieces in front of the literal may end are looked at. -/
def literalStarts (literal : Text) : Places → Text → Places
  | [], _ => []
  | here :: places, t =>
    (here && Text.beginsWith Text.sameFolded literal t) :: literalStarts literal places (t.drop 1)

/-- The places where a literal ends that began at one of these. A literal has the same number of
characters wherever it stands, so the places are those from which it follows, moved on by its
length. -/
def afterLiteral (literal : Text) (places : Places) (t : Text) : Places :=
  (List.replicate literal.length false ++ literalStarts literal places t).take places.length

/-- The states one character further, each once. Scans that cannot go on are dropped, and there are
never more scans than states. -/
def stepAll (scans : List Scan) (c : Char) : List Scan :=
  scans.foldr (fun scan next => match scan.step c with
    | some s => next.insert s
    | none => next) []

/-- The places where a token ends that began at one of these, or that one of the scans is in. All
tokens are followed at once, so the call is read once for a slot. -/
def afterToken (scans : List Scan) : Places → Text → Places
  | [], _ => []
  | here :: places, t =>
    let ends := scans.any Scan.isEnd
    let scans := if here then Scan.start :: scans else scans
    match t with
    | [] => [ends]
    | c :: t => ends :: afterToken (stepAll scans c) places t

/-- The places where a piece ends that began at one of these. What a slot is called and which
position it asks for do not matter here. -/
def afterPiece (t : Text) (places : Places) : Piece → Places
  | .literal literal => afterLiteral literal places t
  | .slot _ => afterToken [] places t

/-- The places of a call where its pieces may begin: the first, and behind any keyword and a blank.
-/
def beginnings (keywords : List Text) (t : Text) : Places :=
  placesOf t <| 0 :: keywords.filterMap fun keyword =>
    match Keyword.drop? keyword t with
    | some (c :: _) => if Unicode.isWhiteSpace c then some (keyword.length + 1) else none
    | _ => none

/-- Whether a call consists of these pieces, with or without a keyword in front: behind the last
piece the end of the call has to be among the places. -/
def fits (keywords : List Text) (pieces : List Piece) (t : Text) : Bool :=
  (pieces.foldl (afterPiece t) (beginnings keywords t)).getLast? == some true

end StepPhrase.Call
