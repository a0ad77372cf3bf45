import StepPhrase.Argument
import StepPhrase.Argument.Search
import StepPhrase.Template
import StepPhrase.Text.Caseless

/-!
# Values in a call

The arguments of a call are found from left to right. For each slot the literal in front of it is
skipped; then the first token that the literal behind the slot follows is taken, as long as it can
be. The next search begins right behind the token, so the literal is there to be found again.

The values found belong to the slots in textual order. A slot that asks for a position sends its
value there; the others keep theirs.
-/

namespace StepPhrase.Call

open Template

/-- What is left of a call after the first occurrence of a literal, which may be empty. Everything
in front of the occurrence is skipped along with it, a keyword for example. -/
def skip? (literal t : Text) : Option Text :=
  if literal = [] then some t else Text.dropThrough? Text.sameLowered literal t

/-- The token for a slot, and what is behind it. The literal behind the slot has to occur in what is
left; then the token is the longest one, at the first place that has any, with that literal behind
it. -/
def takeToken? (frame : Frame) (t : Text) : Option (Text × Text) :=
  match skip? frame.lead t with
  | none => none
  | some t =>
    match skip? frame.boundary t with
    | none => none
    | some _ => firstToken? (Text.beginsWith Text.sameFolded frame.boundary) t

/-- The tokens for some slots, each looked for behind the one before. If one of them cannot be found
there are none. -/
def takeTokens? : List Frame → Text → Option (List Text)
  | [], _ => some []
  | frame :: frames, t =>
    match takeToken? frame t with
    | none => none
    | some (token, rest) => (takeTokens? frames rest).map (token :: ·)

/-- The arguments of a call as written, in the order of the slots, with their quotes and the shapes
that they have with them. -/
def rawArguments? (template : Template) (t : Text) : Option (List Argument) :=
  (takeTokens? template.frames t).map (·.map Argument.ofToken)

/-- Sends values to the positions that are asked for. Values that ask for none are sent to their own
position; of two that are sent to the same one, the later stays. A position that none is sent to
keeps its value, and one that does not exist makes the whole fail. -/
def arrange? {α : Type} (indices : List (Option Nat)) (values : List α) : Option (List α) :=
  (indices.zip values).zipIdx.foldlM
    (fun arranged ((index, value), position) =>
      let target := index.getD position
      if target < arranged.length then some (arranged.set target value) else none)
    values

/-- The arguments of a call without their quotes, in the positions that the slots ask for. If a
value is missing or a position out of range there are none. -/
def arguments? (template : Template) (t : Text) : Option (List Argument) :=
  (rawArguments? template t).bind fun raw =>
    arrange? (template.slots.map Slot.index) (raw.map Argument.unquoted)

end StepPhrase.Call
