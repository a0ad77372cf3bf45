import StepPhrase.Keyword.Leading

/-!
# Literals and slots alternate

In a template no literal is empty and no two literals are adjacent, so each slot has all of the
literal text around it in the one literal on either side. Reading a definition establishes this
(`alternating_of_ofText?`) and taking its keyword away keeps it (`Alternating.withoutKeyword`). The
slots themselves are untouched by the latter (`slots_withoutKeyword`).

Alternation is what makes the literals around a slot its boundaries. Were a literal cut in two, a
search for the half in front of a slot would stop too early, and an empty one would be found
anywhere.
-/

namespace StepPhrase.Template

open Piece (leadingLiteral)

variable {engine : Engine}

/-- No literal is empty, and none follows another. Slots may follow each other, and a template may
begin and end with either. -/
def Alternating : List Piece → Prop
  | [] => True
  | .literal t :: pieces => t ≠ [] ∧ leadingLiteral pieces = [] ∧ Alternating pieces
  | .slot _ :: pieces => Alternating pieces

/-! ## Reading a definition

Items are put in front of the pieces one by one, and a character goes into the literal that is
there, if there is one. -/

theorem Alternating.consChar (c : Char) {pieces : List Piece} (h : Alternating pieces) :
    Alternating (Piece.consChar c pieces) := by
  cases pieces with
  | nil => exact ⟨List.cons_ne_nil c [], rfl, h⟩
  | cons piece pieces =>
    cases piece with
    | literal t => exact ⟨List.cons_ne_nil c t, h.2⟩
    | slot s => exact ⟨List.cons_ne_nil c [], rfl, h⟩

theorem alternating_ofItems (start : Nat) (items : List Item) :
    Alternating (Piece.ofItems start items) := by
  induction items generalizing start with
  | nil => exact trivial
  | cons item items ih =>
    have hrest := ih (start + item.byteLength)
    cases item with
    | plain c => exact hrest.consChar c
    | escaped c => exact hrest.consChar c
    | backslash => exact hrest.consChar '\\'
    | slot inside => exact hrest

theorem ofText?_eq_ok {definition : Text} {template : Template}
    (h : ofText? engine definition = .ok template) :
    template.source = definition ∧ pieces? definition = .ok template.pieces
      ∧ ∀ e ∈ expressionsOf template.pieces, engine.compiles e = true := by
  unfold ofText? at h
  split at h
  · cases h
  · next pieces hpieces =>
    split at h
    · next hcompiles =>
      cases h
      exact ⟨rfl, hpieces, List.all_eq_true.mp hcompiles⟩
    · cases h

/-- **The pieces of a definition alternate**, whatever it is written with: escapes and plain
characters between two slots end up in one literal. -/
theorem alternating_of_ofText? {definition : Text} {template : Template}
    (h : ofText? engine definition = .ok template) : Alternating template.pieces := by
  obtain ⟨-, hpieces, -⟩ := ofText?_eq_ok h
  unfold pieces? at hpieces
  cases hitems : items? definition with
  | error e => rw [hitems] at hpieces; cases hpieces
  | ok items =>
    rw [hitems] at hpieces
    rw [← Except.ok.inj hpieces]
    exact alternating_ofItems 0 items

/-! ## Taking the keyword away

All of the template but its first literal stays, and that one goes if nothing is left of it. What
follows it is no literal, so none can come to stand at another one. -/

/-- Only the first literal changes, and it gets shorter at its front or goes away. The source stays
that of the definition, keyword included. -/
theorem withoutKeyword_cases (keywords : List Text) (template : Template) :
    template.withoutKeyword engine keywords = template
      ∨ ∃ first rest pieces, template.pieces = .literal first :: pieces
          ∧ Keyword.strip? engine keywords first = some rest
          ∧ template.withoutKeyword engine keywords =
            { template with pieces := if rest = [] then pieces else .literal rest :: pieces } := by
  unfold withoutKeyword
  split
  · next first pieces hpieces =>
    split
    · next hstrip => exact Or.inr ⟨first, [], pieces, hpieces, hstrip, rfl⟩
    · next rest hne hstrip =>
      refine Or.inr ⟨first, rest, pieces, hpieces, hstrip, ?_⟩
      rw [if_neg hne]
    · exact Or.inl rfl
  · exact Or.inl rfl

theorem Alternating.withoutKeyword {template : Template} (h : Alternating template.pieces)
    (keywords : List Text) : Alternating (template.withoutKeyword engine keywords).pieces := by
  rcases withoutKeyword_cases keywords template with heq | ⟨first, rest, pieces, hpieces, -, heq⟩
  · rw [heq]
    exact h
  · rw [hpieces] at h
    rw [heq]
    -- without the literal the pieces begin with what followed it, which is a slot or nothing
    by_cases hrest : rest = []
    · simpa [hrest] using h.2.2
    · simpa [hrest] using (show Alternating (.literal rest :: pieces) from ⟨hrest, h.2⟩)

@[simp] theorem source_withoutKeyword (keywords : List Text) (template : Template) :
    (template.withoutKeyword engine keywords).source = template.source := by
  rcases withoutKeyword_cases keywords template with heq | ⟨_, _, _, _, _, heq⟩
  all_goals rw [heq]

@[simp] theorem slots_withoutKeyword (keywords : List Text) (template : Template) :
    (template.withoutKeyword engine keywords).slots = template.slots := by
  rcases withoutKeyword_cases keywords template with heq | ⟨first, rest, pieces, hpieces, -, heq⟩
  · rw [heq]
  · rw [heq, slots, slots, hpieces]
    split <;> simp

/-! ## Frames

There is one frame for each slot, in their order; literals only fill the frames. -/

theorem map_slot_ofPieces (lead : Text) (pieces : List Piece) :
    (Frame.ofPieces lead pieces).map Frame.slot = slotsOf pieces := by
  induction pieces generalizing lead with
  | nil => rfl
  | cons piece pieces ih =>
    cases piece with
    | literal t => exact ih t
    | slot s =>
      have hrest := ih []
      simp [Frame.ofPieces, hrest]

theorem length_frames (template : Template) : template.frames.length = template.slots.length := by
  rw [slots, ← map_slot_ofPieces [], List.length_map, frames]

end StepPhrase.Template
