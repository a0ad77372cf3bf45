import StepPhrase.Proofs.Call.Matching
import StepPhrase.Proofs.Template.Expression

/-!
# Matching by the gist of a template

A template can be exchanged for its gist: literals are compared without regard to case, and where
the slots of a definition stand and what they are called is never asked. So templates with the same
gist match the same calls, if the engine compiles the expressions for both. Of templates that differ
in names and places of their slots only, these are the same expression.

Each part of matching is a function of the pieces, and each is followed here down to the places
where it looks at one: a literal is compared in small letters and a slot is not looked at. Whether a
template is within the limits and its expression compiles is asked of the engine and is assumed.

* **`fits_map_gist`**, **`takeTokens?_map_gist`**, **`arguments?_of_gist`** — the parts of matching.
* **`match?_eq_of_gist`**, **`match?_eq_of_unnamed`** — matching as a whole.
-/

namespace StepPhrase.Call

open Template Text

theorem skip?_small_left (literal t : Text) : skip? (small literal) t = skip? literal t := by
  rw [skip?, skip?, dropThrough?_small_left ignoresCase_sameLowered]
  simp only [small_eq_nil_iff]

theorem takeToken?_gist (frame : Frame) (t : Text) :
    takeToken? frame.gist t = takeToken? frame t := by
  have hfollows : beginsWith sameFolded (small frame.boundary) =
    beginsWith sameFolded frame.boundary :=
    funext fun t => beginsWith_small_left ignoresCase_sameFolded frame.boundary t
  simp only [takeToken?, Frame.gist, skip?_small_left, hfollows]

theorem takeTokens?_map_gist (frames : List Frame) (t : Text) :
    takeTokens? (frames.map Frame.gist) t = takeTokens? frames t := by
  induction frames generalizing t with
  | nil => rfl
  | cons frame frames ih => simp only [List.map_cons, takeTokens?, takeToken?_gist, ih]

theorem arguments?_of_gist {template other : Template}
    (h : template.pieces.map Piece.gist = other.pieces.map Piece.gist) (t : Text) :
    arguments? template t = arguments? other t := by
  have hframes : template.frames.map Frame.gist = other.frames.map Frame.gist := by
    rw [frames, frames, ← Frame.ofPieces_map_gist, ← Frame.ofPieces_map_gist, h]
  rw [arguments?, arguments?, rawArguments?, rawArguments?, ← takeTokens?_map_gist, hframes,
    takeTokens?_map_gist, index_slots_eq_of_gist h]

theorem literalStarts_small_left (literal : Text) (places : Places) (t : Text) :
    literalStarts (small literal) places t = literalStarts literal places t := by
  induction places generalizing t with
  | nil => rfl
  | cons here places ih =>
    rw [literalStarts, literalStarts, beginsWith_small_left ignoresCase_sameFolded, ih]

theorem afterPiece_gist (t : Text) (places : Places) (piece : Piece) :
    afterPiece t places piece.gist = afterPiece t places piece := by
  cases piece with
  | literal literal =>
    rw [Piece.gist_literal, afterPiece, afterPiece, afterLiteral, afterLiteral, length_small,
      literalStarts_small_left]
  | slot s => rfl

theorem fits_map_gist (keywords : List Text) (pieces : List Piece) (t : Text) :
    fits keywords (pieces.map Piece.gist) t = fits keywords pieces t := by
  simp only [fits, List.foldl_map, afterPiece_gist]

/-- **Templates with the same gist match the same calls, with the same arguments**, unless the
engine tells them apart. -/
theorem match?_eq_of_gist {setting : Setting} {template other : Template}
    (hsource : setting.limit.permits template.source = setting.limit.permits other.source)
    (hcompiles : setting.compiles template = setting.compiles other)
    (h : (setting.stripped template).pieces.map Piece.gist =
      (setting.stripped other).pieces.map Piece.gist) (t : Text) :
    match? setting template t = match? setting other t := by
  have hfits : fits setting.properties.keywords (setting.stripped template).pieces t =
      fits setting.properties.keywords (setting.stripped other).pieces t := by
    rw [← fits_map_gist, h, fits_map_gist]
  refine Option.ext fun arguments => ?_
  rw [match?_eq_some_iff, match?_eq_some_iff, hsource, hcompiles, hfits, arguments?_of_gist h]

/-- **Names and places of slots make no difference to matching**, whatever the engine: templates
that differ in nothing else have one source and one expression, so there is nothing to tell apart.
-/
theorem match?_eq_of_unnamed {setting : Setting} {template other : Template}
    (hsource : setting.limit.permits template.source = setting.limit.permits other.source)
    (h : (setting.stripped template).pieces.map Piece.unnamed =
      (setting.stripped other).pieces.map Piece.unnamed) (t : Text) :
    match? setting template t = match? setting other t := by
  have hcompiles : setting.compiles template = setting.compiles other := by
    rw [Setting.compiles, Setting.compiles, bodyOf_eq_of_unnamed h]
  exact match?_eq_of_gist hsource hcompiles (map_gist_of_unnamed h) t

end StepPhrase.Call
