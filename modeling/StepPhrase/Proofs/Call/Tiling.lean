import StepPhrase.Proofs.Call.Extraction
import StepPhrase.Proofs.Call.Filling
import StepPhrase.Proofs.Template.Alternation
import StepPhrase.Template.Rank

/-!
# Fillings that extraction finds

A call that fits may be divided into the pieces in several ways, and extraction walks along one of
them or along none. Which one is decided piece by piece:

Inside a filling and inside a walk literals are compared in two ways, which agree on ASCII and not
beyond. A walk compares a lead as a search does and a boundary as a match does, so a literal between
two slots must be the same in both ways; this is why the greedy fillings speak of both.

* **`FillsGreedily`** — the fillings along which the walk goes: each token is the longest that the
  next literal can follow.
* **`extracts_and_fills_iff`** — the extracted tokens fill a text exactly when they fill it
  greedily. One half is that the walk has no room to skip anything: `length_le_of_extracts` bounds
  from below what it walks over, and a filling is exactly as long (`length_of_fills`).
* **`FillsLongest`**, **`fillsLongest_iff`** — the same where the literals stand as they are
  written, so that all comparisons agree.
-/

namespace StepPhrase.Call

open Template Text
open Piece (leadingLiteral)

/-- A filling in which each token is the longest with the next literal behind it. The literals in
front of a slot, and those behind one, are also found by a search, which compares in its own way. -/
def FillsGreedily : List Piece → List Text → Text → Prop :=
  Division
    (fun pieces literal front => SameBy sameFolded literal front
      ∧ (slotsOf pieces ≠ [] → SameBy sameLowered literal front))
    fun pieces token rest =>
      IsLongestToken (beginsWith sameFolded (leadingLiteral pieces)) token rest
      ∧ Occurs (leadingLiteral pieces) (token ++ rest)

/-- A filling with the literals as written in which each token is the longest with the next literal
behind it. -/
def FillsLongest : List Piece → List Text → Text → Prop :=
  Division (fun _ literal front => SameBy (· == ·) literal front)
    fun pieces token rest =>
      IsLongestToken (beginsWith sameFolded (leadingLiteral pieces)) token rest

theorem FillsGreedily.fills {pieces : List Piece} {tokens : List Text} {t : Text}
    (h : FillsGreedily pieces tokens t) : Fills sameFolded pieces tokens t :=
  h.mono (fun _ _ _ hliteral => hliteral.1) fun _ _ _ htoken => htoken.1.isToken

/-! ## Lengths

A comparison keeps lengths, so a filling is as long as its pieces say. A walk is at least as long,
with what it skips added, and that is what makes a walk with the same tokens skip nothing. -/

/-- A filling is as long as the literals and the tokens together. Literals may be in another case,
but not of another length. -/
theorem length_of_fills {same : Char → Char → Bool} {pieces : List Piece} {tokens : List Text}
    {t : Text} (h : Fills same pieces tokens t) :
    t.length = total Piece.literalChars pieces + total List.length tokens := by
  induction h with
  | nil => rfl
  | literal hliteral _ ih =>
    have hlength := hliteral.length_eq
    simp only [List.length_append, total_cons, Piece.literalChars]
    omega
  | slot _ _ ih =>
    simp only [List.length_append, total_cons, Piece.literalChars]
    omega

/-- The walk moves over the leads and the tokens, and the last boundary is still ahead of it. So it
needs a text at least as long as the pieces with those tokens. -/
theorem length_le_of_extracts {lead : Text} {pieces : List Piece} {tokens : List Text} {t : Text}
    (halternating : Alternating pieces) (hlead : lead = [] ∨ leadingLiteral pieces = [])
    (hroom : lead.length + (leadingLiteral pieces).length ≤ t.length)
    (h : Extracts (Frame.ofPieces lead pieces) t tokens) :
    lead.length + (total Piece.literalChars pieces + total List.length tokens) ≤ t.length := by
  induction pieces generalizing lead tokens t with
  | nil =>
    cases h
    simpa using hroom
  | cons piece pieces ih =>
    cases piece with
    | literal literal =>
      obtain ⟨hne, hnext, hpieces⟩ := halternating
      obtain rfl : lead = [] := hlead.resolve_right hne
      have hlength := ih hpieces (Or.inr hnext) (by simpa [hnext] using hroom) h
      simpa [Piece.literalChars, Nat.add_assoc] using hlength
    | slot s =>
      cases h with
      | cons hfirst _ htoken hrest =>
        -- the boundary stands at the front of what is left, so there is room for it
        obtain ⟨front, rest, rfl, hsame⟩ := beginsWith_iff.mp htoken.follows_rest
        have hboundary : (leadingLiteral pieces).length = front.length := hsame.length_eq
        have hlength := ih halternating (Or.inl rfl) (by simp [hboundary]) hrest
        have hfront := hfirst.sameBy.length_eq
        simp only [List.length_append, total_cons, Piece.literalChars, List.length_nil] at hlength ⊢
        simp only at hfront
        omega

/-! ## Walks along fillings

Both directions are inductions over the pieces. A literal is remembered until the next slot makes it
the lead of a frame, so `front` and `lead` are the literal just passed, in the call and in the
template. -/

theorem ofPieces_eq_nil {lead : Text} {pieces : List Piece} (h : slotsOf pieces = []) :
    Frame.ofPieces lead pieces = [] := by
  rw [← map_slot_ofPieces lead, List.map_eq_nil_iff] at h
  exact h

/-- A walk goes along every greedy filling: it finds each lead where it stands and takes each token
in full, without skipping anything. -/
theorem FillsGreedily.extracts {lead front : Text} {pieces : List Piece} {tokens : List Text}
    {t : Text} (halternating : Alternating pieces) (hlead : lead = [] ∨ leadingLiteral pieces = [])
    (hfront : SameBy sameLowered lead front) (h : FillsGreedily pieces tokens t) :
    Extracts (Frame.ofPieces lead pieces) (front ++ t) tokens := by
  induction pieces generalizing lead front tokens t with
  | nil =>
    obtain ⟨rfl, -⟩ := division_nil_iff.mp h
    exact .nil _
  | cons piece pieces ih =>
    cases piece with
    | literal literal =>
      obtain ⟨hne, hnext, hpieces⟩ := halternating
      obtain rfl : lead = [] := hlead.resolve_right hne
      obtain rfl : front = [] := sameBy_nil_left_iff.mp hfront
      obtain ⟨found, rest, rfl, ⟨-, hfound⟩, hrest⟩ := division_literal_iff.mp h
      rw [Frame.ofPieces, List.nil_append]
      -- the literal becomes the lead of the next slot; behind the last slot nobody looks for it
      by_cases hslots : slotsOf pieces = []
      · have htokens : tokens = [] := by
          rw [← List.length_eq_zero_iff, hrest.length_eq, hslots, List.length_nil]
        rw [ofPieces_eq_nil hslots, htokens]
        exact .nil _
      · exact ih hpieces (Or.inr hnext) (hfound hslots) hrest
    | slot s =>
      obtain ⟨token, rest, others, rfl, rfl, ⟨htoken, hboundary⟩, hrest⟩ := division_slot_iff.mp h
      have hwalk : Extracts (Frame.ofPieces [] pieces) rest others :=
        ih halternating (Or.inl rfl) sameBy_nil hrest
      have hfirst : IsFirstToken (beginsWith sameFolded (leadingLiteral pieces)) [] token rest :=
        ⟨htoken, fun _ _ _ _ _ _ => Nat.zero_le _⟩
      have hleadFirst : IsFirstOccurrence sameLowered lead [] front ([] ++ (token ++ rest)) :=
        isFirstOccurrence_nil hfront
      show Extracts (⟨lead, s, leadingLiteral pieces⟩ :: Frame.ofPieces [] pieces)
        ([] ++ (front ++ ([] ++ (token ++ rest)))) (token :: others)
      exact .cons hleadFirst hboundary hfirst hwalk

/-- A walk over a filling with the very tokens that it finds cannot skip anything, so it goes along
that filling, and it is greedy. -/
theorem fillsGreedily_of_extracts {lead front : Text} {pieces : List Piece} {tokens : List Text}
    {t : Text} (halternating : Alternating pieces) (hlead : lead = [] ∨ leadingLiteral pieces = [])
    (hlength : front.length = lead.length)
    (hextracts : Extracts (Frame.ofPieces lead pieces) (front ++ t) tokens)
    (hfills : Fills sameFolded pieces tokens t) :
    FillsGreedily pieces tokens t ∧ (slotsOf pieces ≠ [] → SameBy sameLowered lead front) := by
  induction pieces generalizing lead front tokens t with
  | nil =>
    obtain ⟨rfl, rfl⟩ := division_nil_iff.mp hfills
    exact ⟨.nil, fun h => absurd rfl h⟩
  | cons piece pieces ih =>
    cases piece with
    | literal literal =>
      obtain ⟨hne, hnext, hpieces⟩ := halternating
      obtain rfl : lead = [] := hlead.resolve_right hne
      obtain rfl : front = [] := List.length_eq_zero_iff.mp hlength
      obtain ⟨found, rest, rfl, hfound, hrest⟩ := division_literal_iff.mp hfills
      obtain ⟨hgreedy, hlowered⟩ :=
        ih hpieces (Or.inr hnext) hfound.length_eq.symm hextracts hrest
      exact ⟨.literal ⟨hfound, hlowered⟩ hgreedy, fun _ => sameBy_nil⟩
    | slot s =>
      obtain ⟨token, rest, others, rfl, rfl, -, hrest⟩ := division_slot_iff.mp hfills
      have hpieces : Alternating pieces := halternating
      generalize hwalked : front ++ (token ++ rest) = walked at hextracts
      cases hextracts with
      | @cons _ _ before front' gap _ rest' _ hfirst hboundary htoken hwalk =>
        -- the boundary is in front of what is left, so the bound holds for the rest of the walk
        obtain ⟨found, behind, hbehind, hfound⟩ := beginsWith_iff.mp htoken.follows_rest
        have hroom : ([] : Text).length + (leadingLiteral pieces).length ≤ rest'.length := by
          have hboundaryLength : (leadingLiteral pieces).length = found.length := hfound.length_eq
          simp [hbehind, hboundaryLength]
        have hwalkLength := length_le_of_extracts hpieces (Or.inl rfl) hroom hwalk
        have hfillLength := length_of_fills hrest
        have hleadLength : lead.length = front'.length := hfirst.sameBy.length_eq
        -- what is left to fill is no longer than what is left to walk over, so nothing was skipped
        have hlengths := congrArg List.length hwalked
        simp only [List.length_append, List.length_nil] at hlengths hwalkLength
        obtain rfl : before = [] := List.length_eq_zero_iff.mp (by omega)
        obtain rfl : gap = [] := List.length_eq_zero_iff.mp (by omega)
        rw [List.nil_append, List.nil_append] at hwalked
        -- with nothing skipped the token of the walk is the token of the filling
        obtain ⟨rfl, htail⟩ := List.append_inj hwalked (by omega)
        obtain rfl : rest = rest' := List.append_cancel_left htail
        obtain ⟨hgreedy, -⟩ := ih hpieces (Or.inl rfl) rfl hwalk hrest
        exact ⟨.slot ⟨htoken.toIsLongestToken, hboundary⟩ hgreedy, fun _ => hfirst.sameBy⟩

/-- **The extracted tokens fill a text exactly when they fill it greedily.** The walk and the
filling are asked of the same text with the same tokens. -/
theorem extracts_and_fills_iff {pieces : List Piece} {tokens : List Text} {t : Text}
    (halternating : Alternating pieces) :
    Extracts (Frame.ofPieces [] pieces) t tokens ∧ Fills sameFolded pieces tokens t ↔
      FillsGreedily pieces tokens t := by
  constructor
  · rintro ⟨hextracts, hfills⟩
    exact (fillsGreedily_of_extracts halternating (Or.inl rfl) rfl hextracts hfills).1
  · intro h
    exact ⟨h.extracts halternating (Or.inl rfl) sameBy_nil, h.fills⟩

/-! ## Literals as written

A call that is written from a template has its literals character by character. They are the same in
any comparison then, and of greed only the length of the tokens is left. -/

theorem FillsLongest.occurs {pieces : List Piece} {tokens : List Text} {t : Text}
    (h : FillsLongest pieces tokens t) : Occurs (leadingLiteral pieces) t := by
  cases h with
  | nil => exact occurs_nil []
  | @literal literal front rest _ _ hliteral _ => exact ⟨[], front, rest, rfl, hliteral.lowered⟩
  | slot _ _ => exact occurs_nil _

theorem FillsLongest.consChar {pieces : List Piece} {tokens : List Text} {t : Text} (c : Char)
    (h : FillsLongest pieces tokens t) :
    FillsLongest (Piece.consChar c pieces) tokens (c :: t) := by
  have hone : SameBy (· == ·) [c] [c] := sameBy_refl beq_self_eq_true [c]
  cases h with
  | nil => exact division_literal_iff.mpr ⟨[c], [], rfl, hone, .nil⟩
  | @literal literal front rest _ _ hliteral hrest =>
    exact division_literal_iff.mpr ⟨c :: front, rest, rfl, hone.append hliteral, hrest⟩
  | @slot s token rest pieces others htoken hrest =>
    exact division_literal_iff.mpr ⟨[c], token ++ rest, rfl, hone, .slot htoken hrest⟩

theorem FillsLongest.beginsWith {pieces : List Piece} {tokens : List Text} {t : Text}
    (h : FillsLongest pieces tokens t) :
    beginsWith sameFolded (leadingLiteral pieces) t = true := by
  rw [beginsWith_iff]
  cases h with
  | nil => exact ⟨[], [], rfl, sameBy_nil⟩
  | @literal literal front rest _ _ hliteral _ => exact ⟨front, rest, rfl, hliteral.folded⟩
  | slot _ _ => exact ⟨[], _, rfl, sameBy_nil⟩

theorem FillsLongest.fillsGreedily {pieces : List Piece} {tokens : List Text} {t : Text}
    (h : FillsLongest pieces tokens t) : FillsGreedily pieces tokens t := by
  induction h with
  | nil => exact .nil
  | literal hliteral _ ih => exact .literal ⟨hliteral.folded, fun _ => hliteral.lowered⟩ ih
  | @slot _ token _ _ _ htoken hrest ih =>
    have hoccurs := FillsLongest.occurs hrest
    exact .slot ⟨htoken, hoccurs.append_left token⟩ ih

/-- **Between literals as written, greedy is longest**: of the two demands on a greedy filling, the
one on how literals compare is met by all that are the same. -/
theorem fillsLongest_iff {pieces : List Piece} {tokens : List Text} {t : Text} :
    FillsLongest pieces tokens t ↔
      Fills (· == ·) pieces tokens t ∧ FillsGreedily pieces tokens t := by
  constructor
  · intro h
    exact ⟨h.mono (fun _ _ _ hliteral => hliteral) fun _ _ _ htoken => htoken.isToken,
      h.fillsGreedily⟩
  · rintro ⟨hfills, hgreedy⟩
    induction pieces generalizing tokens t with
    | nil =>
      obtain ⟨rfl, rfl⟩ := division_nil_iff.mp hfills
      exact .nil
    | cons piece pieces ih =>
      cases piece with
      | literal literal =>
        obtain ⟨front, rest, rfl, hfront, hrest⟩ := division_literal_iff.mp hfills
        obtain ⟨front', rest', heq, ⟨hfront', -⟩, hrest'⟩ := division_literal_iff.mp hgreedy
        have hlength := hfront.length_eq.symm.trans hfront'.length_eq
        -- both fillings cut the literal off the same text, and at the same length
        obtain ⟨rfl, rfl⟩ := List.append_inj heq hlength
        exact .literal hfront (ih hrest hrest')
      | slot s =>
        obtain ⟨token, rest, others, rfl, rfl, -, hrest⟩ := division_slot_iff.mp hfills
        obtain ⟨token', rest', others', heq, htokens, ⟨htoken, -⟩, hrest'⟩ :=
          division_slot_iff.mp hgreedy
        obtain ⟨rfl, rfl⟩ := List.cons.inj htokens
        obtain rfl := List.append_cancel_left heq
        exact .slot htoken (ih hrest hrest')

end StepPhrase.Call
