import StepPhrase.Proofs.Template.Gist

/-!
# What the engine sees of a template

Whether the engine compiles the expressions of a template is its own business, but it can only go by
the expressions. They do not say what a slot is called and where it stands, so templates that differ
in nothing else have the same expressions, and no engine tells them apart. The case of letters is
written into the expressions; an engine that is told to read without regard to case compiles both
forms into the same, and `Engine.IsCaseBlind` is what is asked of it.

What is assumed of the engine is no more than that. It may refuse what it likes, for its size or for
any other reason, as long as it makes no difference between expressions that mean the same.

* **`expressionsOf_map_unnamed`** — names and places of slots do not occur in the expressions.
* **`expressionsOf_map_gist`** — the gist of a template has its expressions in small letters.
* **`forall_compiles_iff_of_gist`** — so an engine that is blind to case compiles both or none.
-/

namespace StepPhrase

open Text

/-- The pattern of a character in small letters. All other patterns stay as they are; of letters
they have none. -/
def Pattern.small : Pattern → Pattern
  | .char c => .char c.toLower
  | p => p

/-- An expression with its literals and keywords in small letters. An engine that reads expressions
without regard to case makes no difference between the two. -/
def Expression.small : Expression → Expression
  | .whole body => .whole (body.map Pattern.small)
  | .value boundary => .value boundary.small
  | .call keywords body => .call (keywords.map Text.small) (body.map Pattern.small)
  | .leading keywords => .leading (keywords.map Text.small)
  | .stripping keywords => .stripping (keywords.map Text.small)

/-- The engine compiles an expression exactly if it compiles the expression in small letters.
Expressions are compiled to be matched without regard to case, so a letter stands for all of its
cases in whichever of them it is written. -/
def Engine.IsCaseBlind (engine : Engine) : Prop :=
  ∀ e : Expression, engine.compiles e.small = engine.compiles e

theorem Engine.isCaseBlind_unlimited : Engine.unlimited.IsCaseBlind := fun _ => rfl

namespace Template

open Piece (leadingLiteral consChar ofItems)

variable {engine : Engine}

/-! ## Names and places of slots

A slot is the same pattern wherever it stands and whatever it is called, and its literals are the
same too. -/

/-- A piece without a name and a place, if it is a slot. -/
def Piece.unnamed : Piece → Piece
  | .literal t => .literal t
  | .slot s => .slot ⟨[], 0, s.index⟩

@[simp] theorem Piece.gist_unnamed (piece : Piece) : piece.unnamed.gist = piece.gist := by
  cases piece <;> rfl

theorem map_gist_of_unnamed {pieces others : List Piece}
    (h : pieces.map Piece.unnamed = others.map Piece.unnamed) :
    pieces.map Piece.gist = others.map Piece.gist := by
  have hgist := congrArg (List.map Piece.gist) h
  simpa [List.map_map, Function.comp_def] using hgist

theorem map_unnamed_consChar (c : Char) (pieces : List Piece) :
    (consChar c pieces).map Piece.unnamed = consChar c (pieces.map Piece.unnamed) := by
  cases pieces with
  | nil => rfl
  | cons piece pieces => cases piece <;> rfl

theorem pieces_withoutKeyword_map_unnamed {keywords : List Text} {template other : Template}
    (h : template.pieces.map Piece.unnamed = other.pieces.map Piece.unnamed) :
    (template.withoutKeyword engine keywords).pieces.map Piece.unnamed =
      (other.withoutKeyword engine keywords).pieces.map Piece.unnamed := by
  have hunnamed := @pieces_withoutKeyword_map engine keywords Piece.unnamed id (fun _ => rfl)
    (fun _ => ⟨_, rfl⟩) (fun _ => Iff.rfl) (fun _ => by rw [Option.map_id]; rfl) []
  rw [← hunnamed template.source, ← hunnamed other.source, h]

theorem leadingLiteral_map_unnamed (pieces : List Piece) :
    leadingLiteral (pieces.map Piece.unnamed) = leadingLiteral pieces := by
  cases pieces with
  | nil => rfl
  | cons piece pieces => cases piece <;> rfl

@[simp] theorem bodyOf_map_unnamed (pieces : List Piece) :
    bodyOf (pieces.map Piece.unnamed) = bodyOf pieces := by
  rw [bodyOf, bodyOf, List.flatMap_map]
  refine List.flatMap_congr fun piece _ => ?_
  cases piece <;> rfl

theorem bodyOf_eq_of_unnamed {pieces others : List Piece}
    (h : pieces.map Piece.unnamed = others.map Piece.unnamed) : bodyOf pieces = bodyOf others := by
  rw [← bodyOf_map_unnamed, h, bodyOf_map_unnamed]

theorem boundary_ofPieces_map_unnamed (lead other : Text) (pieces : List Piece) :
    (Frame.ofPieces lead (pieces.map Piece.unnamed)).map Frame.boundary =
      (Frame.ofPieces other pieces).map Frame.boundary := by
  induction pieces generalizing lead other with
  | nil => rfl
  | cons piece pieces ih =>
    cases piece with
    | literal t => exact ih t t
    | slot s => exact congrArg₂ List.cons (leadingLiteral_map_unnamed pieces) (ih [] [])

/-- **Names and places of slots do not occur in the expressions**, neither in the one for the whole
template nor in those for its values. -/
theorem expressionsOf_map_unnamed (pieces : List Piece) :
    expressionsOf (pieces.map Piece.unnamed) = expressionsOf pieces := by
  have hvalues := congrArg (List.map Expression.value) (boundary_ofPieces_map_unnamed [] [] pieces)
  rw [List.map_map, List.map_map] at hvalues
  exact congrArg₂ List.cons (congrArg Expression.whole (bodyOf_map_unnamed pieces)) hvalues

theorem expressionsOf_eq_of_unnamed {pieces others : List Piece}
    (h : pieces.map Piece.unnamed = others.map Piece.unnamed) :
    expressionsOf pieces = expressionsOf others := by
  rw [← expressionsOf_map_unnamed, h, expressionsOf_map_unnamed]

/-! ## The case of letters

Small letters in the literals make small letters in the expressions. The pattern for a slot has no
letters in it and stays. -/

theorem bodyOf_map_gist (pieces : List Piece) :
    bodyOf (pieces.map Piece.gist) = (bodyOf pieces).map Pattern.small := by
  rw [bodyOf, bodyOf, List.flatMap_map, List.map_flatMap]
  refine List.flatMap_congr fun piece _ => ?_
  cases piece with
  | literal t => simp [Piece.patterns, Pattern.small, Text.small, Function.comp_def]
  | slot s => rfl

/-- **The gist of a template has its expressions, in small letters.** -/
theorem expressionsOf_map_gist (pieces : List Piece) :
    expressionsOf (pieces.map Piece.gist) = (expressionsOf pieces).map Expression.small := by
  have hframes := Frame.ofPieces_map_gist [] pieces
  rw [small_nil] at hframes
  rw [expressionsOf, expressionsOf, List.map_cons, bodyOf_map_gist, hframes,
    List.map_map, List.map_map]
  rfl

/-- An engine that is blind to case compiles the expressions of templates with the same gist, or of
neither of them. -/
theorem forall_compiles_iff_of_gist (hblind : engine.IsCaseBlind) {pieces others : List Piece}
    (h : pieces.map Piece.gist = others.map Piece.gist) :
    (∀ e ∈ expressionsOf pieces, engine.compiles e = true) ↔
      ∀ e ∈ expressionsOf others, engine.compiles e = true := by
  have hsmall : ∀ pieces, (∀ e ∈ expressionsOf pieces, engine.compiles e = true) ↔
      ∀ e ∈ expressionsOf (pieces.map Piece.gist), engine.compiles e = true := by
    intro pieces
    simp only [expressionsOf_map_gist, List.forall_mem_map, hblind _]
  rw [hsmall pieces, h, ← hsmall others]

theorem compiles_call_eq_of_gist (hblind : engine.IsCaseBlind) (keywords : List Text)
    {pieces others : List Piece} (h : pieces.map Piece.gist = others.map Piece.gist) :
    engine.compiles (.call keywords (bodyOf pieces)) =
      engine.compiles (.call keywords (bodyOf others)) := by
  have hbody : (bodyOf pieces).map Pattern.small = (bodyOf others).map Pattern.small := by
    rw [← bodyOf_map_gist, h, bodyOf_map_gist]
  rw [← hblind, ← hblind (.call keywords (bodyOf others)), Expression.small,
    Expression.small, hbody]

end Template

end StepPhrase
