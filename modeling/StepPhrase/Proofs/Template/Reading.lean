import StepPhrase.Proofs.Template.Alternation
import StepPhrase.Proofs.Template.Grammar

/-!
# Reading a definition

What comes out of a definition when text is put in front of it, and what comes out of one that is
all literal text.

Text in front of a definition goes into its first literal and moves its slots. Both are kept apart
here: the pieces are made of the same items at another place, and then characters are put in front
of them.

* **`readItems_append`** — characters that mean nothing to the reader stand for themselves, whatever
  follows.
* **`ofItems_add`** — further behind, the same items make the same pieces; only the slots are moved.
* **`pieces_append`**, **`pieces_of_literal`** — what both come to for the pieces of a definition.
-/

namespace StepPhrase.Template

open Piece (leadingLiteral consChar ofItems)

variable {engine : Engine}

/-! ## Items

Characters that are neither backslash nor brace are whole items, so they can be read off before what
follows is looked at. -/

/-- Neither a backslash nor an opening brace, so every character is an item that stands for itself.
-/
def IsPlain (t : Text) : Prop := ∀ c ∈ t, c ≠ '\\' ∧ c ≠ '{'

instance : DecidablePred IsPlain := List.decidableBAll fun c => c ≠ '\\' ∧ c ≠ '{'

/-- **Plain characters stand for themselves in front of any definition**, and what follows is read
as it would be alone, even if it cannot be read to its end. -/
theorem readItems_append {front : Text} (hfront : IsPlain front) (t : Text) :
    readItems (front ++ t) = (front.map Item.plain ++ (readItems t).1, (readItems t).2) := by
  have hwhole : ∀ item ∈ front.map Item.plain, item.IsWhole := by
    intro item hitem
    obtain ⟨c, hc, rfl⟩ := List.mem_map.mp hitem
    exact hfront c hc
  have hsource : (front.map Item.plain).flatMap Item.source = front := by
    rw [List.flatMap_map]
    exact List.flatMap_singleton' front
  rw [← readItems_flatMap_append hwhole, hsource]

/-! ## Pieces

Making pieces goes over the items from the last to the first. So items in front only add to what has
been made, and the place of the items only shows in where the slots are. -/

/-- The pieces behind the literal that a sequence of pieces begins with, all of them if it begins
with none. -/
def Piece.behindLiteral : List Piece → List Piece
  | .literal _ :: pieces => pieces
  | pieces => pieces

@[simp] theorem slotsOf_consChar (c : Char) (pieces : List Piece) :
    slotsOf (consChar c pieces) = slotsOf pieces := by
  unfold consChar
  split <;> rfl

@[simp] theorem slotsOf_behindLiteral (pieces : List Piece) :
    slotsOf (Piece.behindLiteral pieces) = slotsOf pieces := by
  cases pieces with
  | nil => rfl
  | cons piece pieces => cases piece <;> rfl

theorem leadingLiteral_consChar (c : Char) (pieces : List Piece) :
    leadingLiteral (consChar c pieces) = c :: leadingLiteral pieces := by
  cases pieces with
  | nil => rfl
  | cons piece pieces => cases piece <;> rfl

theorem foldr_consChar {front : Text} (hne : front ≠ []) (pieces : List Piece) :
    front.foldr consChar pieces =
      .literal (front ++ leadingLiteral pieces) :: Piece.behindLiteral pieces := by
  induction front with
  | nil => exact absurd rfl hne
  | cons c front ih =>
    rw [List.foldr_cons]
    by_cases hfront : front = []
    · rw [hfront]
      cases pieces with
      | nil => rfl
      | cons piece pieces => cases piece <;> rfl
    · rw [ih hfront]
      rfl

theorem slotsOf_foldr_consChar (front : Text) (pieces : List Piece) :
    slotsOf (front.foldr consChar pieces) = slotsOf pieces := by
  induction front with
  | nil => rfl
  | cons c front ih => rw [List.foldr_cons, slotsOf_consChar, ih]

theorem leadingLiteral_foldr_consChar (front : Text) :
    leadingLiteral (front.foldr consChar []) = front := by
  by_cases h : front = []
  · rw [h]
    rfl
  · rw [foldr_consChar h, Piece.leadingLiteral_literal, Piece.leadingLiteral_nil, List.append_nil]

theorem Alternating.eq_leading {pieces : List Piece} (h : Alternating pieces) :
    pieces = if leadingLiteral pieces = [] then Piece.behindLiteral pieces
      else .literal (leadingLiteral pieces) :: Piece.behindLiteral pieces := by
  cases pieces with
  | nil => rfl
  | cons piece pieces =>
    cases piece with
    | literal t => exact (if_neg h.1).symm
    | slot s => rfl

/-- Items that stand for characters make a literal of them in front of what follows. -/
theorem ofItems_append {start : Nat} {run : List Item} {literal : Text}
    (hrun : run.map Item.character? = literal.map some) (items : List Item) :
    ofItems start (run ++ items) =
      literal.foldr consChar (ofItems (start + total Item.byteLength run) items) := by
  induction run generalizing start literal with
  | nil =>
    rw [List.map_nil, eq_comm, List.map_eq_nil_iff] at hrun
    rw [hrun]
    rfl
  | cons item run ih =>
    cases literal with
    | nil => cases hrun
    | cons c literal =>
      obtain ⟨hitem, hrun⟩ := List.cons.inj hrun
      have hrest := @ih (start + item.byteLength) literal hrun
      rw [Nat.add_assoc, ← total_cons] at hrest
      cases item <;> cases hitem <;> rw [List.cons_append, ofItems, hrest, List.foldr_cons]

/-- A slot so many bytes further behind. -/
def Slot.moved (distance : Nat) (s : Slot) : Slot := { s with start := s.start + distance }

/-- A piece so many bytes further behind. -/
def Piece.moved (distance : Nat) : Piece → Piece
  | .literal t => .literal t
  | .slot s => .slot (s.moved distance)

section Moved

variable (distance : Nat)

theorem map_moved_consChar (c : Char) (pieces : List Piece) :
    (consChar c pieces).map (Piece.moved distance) =
      consChar c (pieces.map (Piece.moved distance)) := by
  cases pieces with
  | nil => rfl
  | cons piece pieces => cases piece <;> rfl

/-- **Further behind, the same items make the same pieces, moved.** Literals have no place, so only
slots show it. -/
theorem ofItems_add (start : Nat) (items : List Item) :
    ofItems (start + distance) items = (ofItems start items).map (Piece.moved distance) := by
  induction items generalizing start with
  | nil => rfl
  | cons item items ih =>
    have hrest := ih (start + item.byteLength)
    rw [Nat.add_right_comm] at hrest
    cases item with
    | plain c => rw [ofItems, ofItems, hrest, map_moved_consChar]
    | escaped c => rw [ofItems, ofItems, hrest, map_moved_consChar]
    | backslash => rw [ofItems, ofItems, hrest, map_moved_consChar]
    | slot inside =>
      rw [ofItems, ofItems, hrest]
      rfl

@[simp] theorem leadingLiteral_map_moved (pieces : List Piece) :
    leadingLiteral (pieces.map (Piece.moved distance)) = leadingLiteral pieces := by
  cases pieces with
  | nil => rfl
  | cons piece pieces => cases piece <;> rfl

@[simp] theorem behindLiteral_map_moved (pieces : List Piece) :
    Piece.behindLiteral (pieces.map (Piece.moved distance)) =
      (Piece.behindLiteral pieces).map (Piece.moved distance) := by
  cases pieces with
  | nil => rfl
  | cons piece pieces => cases piece <;> rfl

theorem slotsOf_map_moved (pieces : List Piece) :
    slotsOf (pieces.map (Piece.moved distance)) = (slotsOf pieces).map (Slot.moved distance) := by
  induction pieces with
  | nil => rfl
  | cons piece pieces ih =>
    cases piece with
    | literal t => exact ih
    | slot s => rw [List.map_cons, Piece.moved, slotsOf_slot, slotsOf_slot, List.map_cons, ih]

end Moved

/-! ## Definitions

A template has its pieces from the items of its definition, whatever engine has compiled it. -/

theorem exists_items_of_ofText? {definition : Text} {template : Template}
    (h : ofText? engine definition = .ok template) :
    ∃ items, readItems definition = (items, none) ∧ template.pieces = ofItems 0 items := by
  obtain ⟨-, hpieces, -⟩ := ofText?_eq_ok h
  unfold pieces? items? at hpieces
  split at hpieces
  · next items hitems => exact ⟨items, hitems, (Except.ok.inj hpieces).symm⟩
  · cases hpieces

/-- **The pieces of a template are made of the items of its definition.** -/
theorem pieces_eq_ofItems {definition : Text} {items : List Item} {template : Template}
    (hreading : IsReading definition items) (hparsed : ofText? engine definition = .ok template) :
    template.pieces = ofItems 0 items := by
  obtain ⟨found, hfound, hpieces⟩ := exists_items_of_ofText? hparsed
  obtain ⟨rfl, -⟩ := Prod.mk.inj (hfound.symm.trans (isReading_iff.mp hreading))
  exact hpieces

theorem ofText?_eq_ok_of_isReading {definition : Text} {items : List Item}
    (hreading : IsReading definition items)
    (hcompiles : ∀ e ∈ expressionsOf (ofItems 0 items), engine.compiles e = true) :
    ofText? engine definition = .ok ⟨definition, ofItems 0 items⟩ := by
  simp only [ofText?, pieces?, items?, isReading_iff.mp hreading, Except.map,
    List.all_eq_true.mpr hcompiles, if_true]

/-- **Plain text in front of a definition becomes literal text in front of its pieces.** Two engines
may have compiled the two templates; for the pieces that makes no difference. -/
theorem pieces_append {other : Engine} {front definition : Text} {long short : Template}
    (hfront : IsPlain front) (hlong : ofText? engine (front ++ definition) = .ok long)
    (hshort : ofText? other definition = .ok short) :
    long.pieces = front.foldr consChar (short.pieces.map (Piece.moved front.byteLength)) := by
  obtain ⟨items, hitems, hpieces⟩ := exists_items_of_ofText? hshort
  have hlongReading : IsReading (front ++ definition) (front.map Item.plain ++ items) := by
    rw [isReading_iff, readItems_append hfront, hitems]
  have hlength : total Item.byteLength (front.map Item.plain) = front.byteLength := by
    simp [total, Text.byteLength, List.foldr_map, Item.byteLength, Item.source]
  have hcharacters : (front.map Item.plain).map Item.character? = front.map some := by
    rw [List.map_map]
    rfl
  rw [pieces_eq_ofItems hlongReading hlong, hpieces, ofItems_append hcharacters,
    hlength, ofItems_add]

/-- Items without slots and backslashes are the characters that they are written with. -/
theorem ofItems_of_literal {start : Nat} {items : List Item}
    (hslots : slotsOf (ofItems start items) = []) (hplain : '\\' ∉ items.flatMap Item.source) :
    ofItems start items = (items.flatMap Item.source).foldr consChar [] := by
  induction items generalizing start with
  | nil => rfl
  | cons item items ih =>
    rw [List.flatMap_cons, List.mem_append, not_or] at hplain
    cases item with
    | plain c =>
      rw [ofItems, slotsOf_consChar] at hslots
      rw [ofItems, ih hslots hplain.2]
      rfl
    | escaped c => exact absurd List.mem_cons_self hplain.1
    | backslash => exact absurd List.mem_cons_self hplain.1
    | slot inside => cases hslots

/-- **A definition without slots and backslashes is one literal**, namely the definition as it is
written, or nothing if it is empty. -/
theorem pieces_of_literal {definition : Text} {template : Template}
    (h : ofText? engine definition = .ok template) (hslots : template.slots = [])
    (hplain : '\\' ∉ definition) :
    template.pieces = definition.foldr consChar [] := by
  obtain ⟨items, hitems, hpieces⟩ := exists_items_of_ofText? h
  have hsource : items.flatMap Item.source = definition := (isReading_iff.mpr hitems).1.symm
  rw [slots, hpieces] at hslots
  rw [← hsource] at hplain
  rw [hpieces, ofItems_of_literal hslots hplain, hsource]

end StepPhrase.Template
