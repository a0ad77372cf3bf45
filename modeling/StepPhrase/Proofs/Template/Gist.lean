import StepPhrase.Proofs.Template.Reading
import StepPhrase.Proofs.Text.SmallLetters
import StepPhrase.Template.Rank

/-!
# What matching sees of a template

Matching reads the literals of a template without regard to case, and of a slot it only wants to
know the position that it asks for. The gist of a piece is what is left: a literal in small letters,
or a slot without a name and a place. Templates with the same gist look the same to all that is done
with them. The gist of an item is what it adds to the gist of the pieces, so definitions can be
compared item by item.

The slots of the gist have no tokens and stand nowhere, so the gist of a template is no template of
any definition. It is only used to compare: what is done with a template is done in the same way
with its gist.

* **`Frame.ofPieces_map_gist`** — the slots with their literals, of the gist, are the gist of the
  slots with their literals.
* **`pieces_withoutKeyword_map_gist`** — a keyword is taken off the gist in the same way as off the
  template.
* **`map_gist_ofItems`** — the gist of the pieces is put together from what the items add to it.
-/

namespace StepPhrase

open Text

namespace Keyword

variable {engine : Engine}

variable (keyword t : Text)

theorem drop?_small : drop? keyword (small t) = (drop? keyword t).map small :=
  dropLiteral?_small ignoresCase_sameFolded keyword t

theorem dropWithBlanks?_small :
    dropWithBlanks? (small t) keyword = (dropWithBlanks? t keyword).map small := by
  rw [dropWithBlanks?, dropWithBlanks?, drop?_small]
  cases drop? keyword t with
  | none => rfl
  | some behind =>
    cases behind with
    | nil => rfl
    | cons c rest =>
      -- a blank is one in small letters as well, so the same blanks are dropped
      have hblanks : (small rest).dropWhile Unicode.isWhiteSpace =
          small (rest.dropWhile Unicode.isWhiteSpace) := by
        simp [small, List.dropWhile_map, Function.comp_def]
      simp only [Option.map_some, small_cons, isWhiteSpace_toLower, hblanks]
      split <;> rfl

theorem strip?_small (keywords : List Text) :
    strip? engine keywords (small t) = (strip? engine keywords t).map small := by
  have hfind : keywords.findSome? (dropWithBlanks? (small t)) =
      (keywords.findSome? (dropWithBlanks? t)).map small := by
    induction keywords with
    | nil => rfl
    | cons keyword keywords ih =>
      rw [List.findSome?_cons, List.findSome?_cons, dropWithBlanks?_small, ih]
      cases dropWithBlanks? t keyword <;> rfl
  rw [strip?, strip?, hfind]
  split <;> rfl

end Keyword

namespace Template

open Piece (leadingLiteral consChar ofItems)

/-- A piece as matching sees it: a literal without the case of its letters, a slot without its name
and its place in the definition. -/
def Piece.gist : Piece → Piece
  | .literal t => .literal t.small
  | .slot s => .slot ⟨[], 0, s.index⟩

/-- A slot with its literals as matching sees them. -/
def Frame.gist (frame : Frame) : Frame :=
  ⟨frame.lead.small, ⟨[], 0, frame.slot.index⟩, frame.boundary.small⟩

@[simp] theorem Piece.gist_literal (t : Text) : (Piece.literal t).gist = .literal t.small := rfl

@[simp] theorem Piece.gist_slot (s : Slot) : (Piece.slot s).gist = .slot ⟨[], 0, s.index⟩ := rfl

theorem leadingLiteral_map_gist (pieces : List Piece) :
    leadingLiteral (pieces.map Piece.gist) = small (leadingLiteral pieces) := by
  cases pieces with
  | nil => rfl
  | cons piece pieces => cases piece <;> rfl

theorem index_slotsOf_map_gist (pieces : List Piece) :
    (slotsOf (pieces.map Piece.gist)).map Slot.index = (slotsOf pieces).map Slot.index := by
  induction pieces with
  | nil => rfl
  | cons piece pieces ih =>
    cases piece with
    | literal t => exact ih
    | slot s => rw [List.map_cons, Piece.gist_slot, slotsOf_slot, slotsOf_slot, List.map_cons,
        List.map_cons, ih]

theorem index_slots_eq_of_gist {template other : Template}
    (h : template.pieces.map Piece.gist = other.pieces.map Piece.gist) :
    template.slots.map Slot.index = other.slots.map Slot.index := by
  rw [slots, slots, ← index_slotsOf_map_gist, h, index_slotsOf_map_gist]

theorem Frame.ofPieces_map_gist (lead : Text) (pieces : List Piece) :
    Frame.ofPieces (small lead) (pieces.map Piece.gist) =
      (Frame.ofPieces lead pieces).map Frame.gist := by
  induction pieces generalizing lead with
  | nil => rfl
  | cons piece pieces ih =>
    cases piece with
    | literal t => exact ih t
    | slot s =>
      have hrest := ih []
      rw [List.map_cons, Piece.gist_slot, ofPieces, ofPieces, leadingLiteral_map_gist,
        List.map_cons]
      rw [small_nil] at hrest
      rw [hrest]
      rfl

/-- **Taking the keyword off can be exchanged with a change to each piece** that leaves slots slots,
and that changes a literal in a way which can be exchanged with taking a keyword off it. -/
theorem pieces_withoutKeyword_map {keywords : List Text} {f : Piece → Piece} {g : Text → Text}
    (hliteral : ∀ t, f (.literal t) = .literal (g t)) (hslot : ∀ s, ∃ s', f (.slot s) = .slot s')
    (hnil : ∀ t, g t = [] ↔ t = [])
    (hstrip : ∀ t, Keyword.strip? engine keywords (g t) = (Keyword.strip? engine keywords t).map g)
    (source other : Text) (pieces : List Piece) :
    (withoutKeyword engine keywords ⟨source, pieces.map f⟩).pieces =
      (withoutKeyword engine keywords ⟨other, pieces⟩).pieces.map f := by
  cases pieces with
  | nil => rfl
  | cons piece pieces =>
    cases piece with
    | slot s =>
      obtain ⟨s', hs⟩ := hslot s
      simp [withoutKeyword, hs]
    | literal first =>
      simp only [withoutKeyword, List.map_cons, hliteral, hstrip]
      cases Keyword.strip? engine keywords first with
      | none => simp [hliteral]
      | some rest =>
        -- the literal goes away on both sides or on neither
        by_cases hrest : rest = []
        · simp [hrest, (hnil []).mpr rfl]
        · obtain ⟨c, left, hleft⟩ := List.exists_cons_of_ne_nil (mt (hnil rest).mp hrest)
          obtain ⟨d, behind, rfl⟩ := List.exists_cons_of_ne_nil hrest
          simp [hleft, hliteral]

/-- **Taking the keyword off and reducing to the gist can be done in either order**, as blanks and
keywords are the same in any case. -/
theorem pieces_withoutKeyword_map_gist {keywords : List Text} {template other : Template}
    (h : template.pieces.map Piece.gist = other.pieces.map Piece.gist) :
    (template.withoutKeyword engine keywords).pieces.map Piece.gist =
      (other.withoutKeyword engine keywords).pieces.map Piece.gist := by
  have hgist := @pieces_withoutKeyword_map engine keywords Piece.gist small Piece.gist_literal
    (fun s => ⟨_, Piece.gist_slot s⟩) (fun _ => small_eq_nil_iff)
      (fun t => Keyword.strip?_small t keywords) []
  rw [← hgist template.source, ← hgist other.source, h]

theorem literalChars_map_gist (pieces : List Piece) :
    total Piece.literalChars (pieces.map Piece.gist) = total Piece.literalChars pieces := by
  refine total_map_eq (fun piece => ?_) pieces
  cases piece with
  | literal t => rw [Piece.gist_literal, Piece.literalChars, Piece.literalChars, length_small]
  | slot s => rfl

/-- **The gist of a template says how specific it is**: how many literal characters it has, how many
slots and how many of those ask for a position. -/
theorem rank_eq_of_gist {template other : Template}
    (h : template.pieces.map Piece.gist = other.pieces.map Piece.gist) :
    template.rank = other.rank := by
  have hliteral : total Piece.literalChars template.pieces =
      total Piece.literalChars other.pieces := by
    rw [← literalChars_map_gist, h, literalChars_map_gist]
  -- the indices of the slots are part of the gist, and there is one for each slot
  have hindices := index_slots_eq_of_gist h
  have hslots : template.slots.length = other.slots.length := by
    simpa using congrArg List.length hindices
  have hindexed : template.slots.countP (fun s => s.index.isSome) =
      other.slots.countP fun s => s.index.isSome := by
    simpa [List.countP_map, Function.comp_def] using congrArg (List.countP Option.isSome) hindices
  rw [rank, rank, hliteral, hslots, hindexed]

/-! ## Items

Two definitions may be written quite differently and have the same gist, for an escape and the
character itself add the same. -/

/-- What an item adds to the gist of the pieces: a character in small letters, or the position that
a slot asks for. -/
def Item.gist : Item → Char ⊕ Option Nat
  | .plain c | .escaped c => .inl c.toLower
  | .backslash => .inl '\\'
  | .slot inside => .inr (Slot.indexOf inside)

/-- The gist of some pieces with that of an item in front. -/
def Piece.consGist : Char ⊕ Option Nat → List Piece → List Piece
  | .inl c, pieces => consChar c pieces
  | .inr index, pieces => .slot ⟨[], 0, index⟩ :: pieces

theorem map_gist_consChar (c : Char) (pieces : List Piece) :
    (consChar c pieces).map Piece.gist = consChar c.toLower (pieces.map Piece.gist) := by
  cases pieces with
  | nil => rfl
  | cons piece pieces => cases piece <;> rfl

/-- **The gist of the pieces is put together from the gist of the items**, wherever the items stand.
-/
theorem map_gist_ofItems (start : Nat) (items : List Item) :
    (ofItems start items).map Piece.gist = (items.map Item.gist).foldr Piece.consGist [] := by
  induction items generalizing start with
  | nil => rfl
  | cons item items ih =>
    rw [List.map_cons, List.foldr_cons, ← ih (start + item.byteLength)]
    cases item with
    | plain c => exact map_gist_consChar c _
    | escaped c => exact map_gist_consChar c _
    | backslash => exact map_gist_consChar '\\' _
    | slot inside => rfl

end Template

end StepPhrase
