import StepPhrase.Proofs.Argument.Quotation
import StepPhrase.Proofs.Call.KeywordInDefinition
import StepPhrase.Proofs.Call.Tiling

/-!
# Calls that can be divided in one way only

A definition, written out with tokens for its slots, is divided into the very same tokens again if
each of them shows by itself where it ends. A string does, by its mark. A number does if what
follows cannot be read as more of it. A map or a list does not, but behind the last token there is
room for the last literal only.

Greed is the only danger for such a call: a token could take more than was written for it. What ends
by itself cannot, whatever stands behind it, and the last token cannot because then there would be
too little left for the last literal. So nothing has to be asked of the literals.

* **`isLongestToken_of_number`** — a number ends where no digit follows, and no point with a digit.
* **`isLongestToken_of_length_le`** — a token ends where nothing but the literal follows.
* **`FillsUnambiguously`** — the fillings in which each token but the last ends by itself; by
  **`FillsUnambiguously.fillsLongest`** all tokens are the longest ones.
* **`rawArguments?_of_fillsUnambiguously`** — so extraction finds them.
-/

namespace StepPhrase.Call

open Template Text
open Piece (leadingLiteral)

variable {engine : Engine}

/-- Whether a text may go on with a number that ends in front of it: it begins with a digit, or with
a point and a digit. -/
def continuesNumber : Text → Bool
  | '.' :: c :: _ => Unicode.isDecimalDigit c
  | c :: _ => Unicode.isDecimalDigit c
  | [] => false

/-- The token ends where `rest` begins, whatever its surroundings: it is a string, which its mark
ends, or a number with which `rest` does not go on. -/
def EndsItself (token rest : Text) : Prop :=
  Shape.string.pattern.Matches token
    ∨ Shape.double.pattern.Matches token ∧ continuesNumber rest = false

/-- A filling with the literals as written in which each token but the last ends by itself. The last
one needs no condition, for nothing but literal text is behind it. -/
def FillsUnambiguously : List Piece → List Text → Text → Prop :=
  Division (fun _ literal front => SameBy (· == ·) literal front)
    fun pieces token rest =>
      Shape.token.Matches token ∧ (slotsOf pieces ≠ [] → EndsItself token rest)

/-! ## Tokens that end by themselves

A token that goes on would be completed by what follows it. From the two states in which a number
may end, only a digit or a point with a digit goes on, and from the end of a string nothing does. -/

section EndsItself

variable {follows : Text → Bool} {token rest : Text}

theorem continuesNumber_of_digit {c : Char} (h : Unicode.isDecimalDigit c = true) (t : Text) :
    continuesNumber (c :: t) = true := by
  have hpoint : c ≠ '.' := by
    rintro rfl
    exact absurd h (by decide)
  cases t with
  | nil => simpa [continuesNumber] using h
  | cons d t => simpa [continuesNumber, hpoint] using h

/-- What completes a number once more begins with a digit, or with a point and a digit. A number may
end behind its integer part and behind its fraction, so both states are looked at. -/
theorem continuesNumber_of_accepts {state : Scan} {more : Text}
    (hstate : state = .integer ∨ state = .fraction)
    (haccepts : state.Accepts more) (hmore : more ≠ []) (behind : Text) :
    continuesNumber (more ++ behind) = true := by
  obtain ⟨c, more, rfl⟩ := List.exists_cons_of_ne_nil hmore
  obtain ⟨next, hstep, hnext⟩ := Scan.accepts_cons_iff.mp haccepts
  rcases hstate with rfl | rfl
  · by_cases hpoint : c = '.'
    · subst hpoint
      obtain rfl : Scan.point = next := Option.some.inj hstep
      -- behind the point there has to be a digit
      cases more with
      | nil => cases Scan.accepts_nil_iff.mp hnext
      | cons d more =>
        obtain ⟨_, hdigit, -⟩ := Scan.accepts_cons_iff.mp hnext
        exact (Scan.eq_of_digit hdigit).1
    · rw [Scan.step, if_neg hpoint] at hstep
      exact continuesNumber_of_digit (Scan.eq_of_digit hstep).1 _
  · exact continuesNumber_of_digit (Scan.eq_of_digit hstep).1 _

/-- **A number ends where nothing goes on with it.** A longer token from the same place would be a
number too, and its next character would go on with this one. -/
theorem isLongestToken_of_number (h : Shape.double.pattern.Matches token)
    (hends : continuesNumber rest = false)
    (hrest : follows rest = true) : IsLongestToken follows token rest := by
  -- a scan is in one of two states behind a number, and can end in both
  obtain ⟨state, hrun, hstate⟩ :
      ∃ state, Scan.run .start token = some state ∧ (state = .integer ∨ state = .fraction) := by
    rcases Scan.run_start_number_end_iff.mpr h with hrun | hrun
    · exact ⟨_, hrun, .inl rfl⟩
    · exact ⟨_, hrun, .inr rfl⟩
  have hend : state.isEnd = true := by rcases hstate with rfl | rfl <;> rfl
  refine isLongestToken_of_run hrun hend hrest fun more behind heq hmore haccepts => ?_
  rw [heq, continuesNumber_of_accepts hstate haccepts hmore] at hends
  cases hends

theorem isLongestToken_of_string (h : Shape.string.pattern.Matches token)
    (hrest : follows rest = true) :
    IsLongestToken follows token rest := by
  obtain ⟨q, m, rfl, hm⟩ := Shape.matches_string_iff.mp h
  exact Shape.isLongestToken_of_quotable hm hrest

theorem EndsItself.isLongestToken (h : EndsItself token rest) (hrest : follows rest = true) :
    IsLongestToken follows token rest := by
  rcases h with hstring | ⟨hnumber, hends⟩
  · exact isLongestToken_of_string hstring hrest
  · exact isLongestToken_of_number hnumber hends hrest

end EndsItself

/-- **A token ends where there is room for the literal and nothing else**, even if the literal goes
on with it. -/
theorem isLongestToken_of_length_le {same : Char → Char → Bool} {literal token rest : Text}
    (htoken : Shape.token.Matches token) (hrest : beginsWith same literal rest = true)
    (hlength : rest.length ≤ literal.length) :
    IsLongestToken (beginsWith same literal) token rest := by
  refine ⟨htoken, hrest, fun other behind heq _ hbehind => ?_⟩
  obtain ⟨front, after, rfl, hsame⟩ := beginsWith_iff.mp hbehind
  rw [length_le_iff_of_append_eq heq]
  calc rest.length ≤ literal.length := hlength
    _ = front.length := hsame.length_eq
    _ ≤ (front ++ after).length := by rw [List.length_append]; exact Nat.le_add_right _ _

/-! ## Fillings

By induction over the filling: a token in front of another slot ends by itself, and a token behind
which there is no slot is bounded by the last literal. -/

/-- **Where each token but the last ends by itself, all of them are the longest**, so the walk takes
none of them further than it was written. -/
theorem FillsUnambiguously.fillsLongest {pieces : List Piece} {tokens : List Text} {t : Text}
    (halternating : Alternating pieces) (h : FillsUnambiguously pieces tokens t) :
    FillsLongest pieces tokens t := by
  induction h with
  | nil => exact .nil
  | literal hliteral _ ih => exact .literal hliteral (ih halternating.2.2)
  | @slot _ token rest pieces others htoken _ ih =>
    have hpieces : Alternating pieces := halternating
    have hrest : FillsLongest pieces others rest := ih hpieces
    refine .slot ?_ hrest
    by_cases hslots : slotsOf pieces = []
    · -- behind the last token there is the last literal and nothing else
      have hfills : ∃ tokens, Fills (· == ·) pieces tokens rest :=
        ⟨others, (fillsLongest_iff.mp hrest).1⟩
      have hsame := (fills_iff_of_slotless hpieces hslots).mp hfills
      exact isLongestToken_of_length_le htoken.1 hrest.beginsWith
        (Nat.le_of_eq hsame.length_eq.symm)
    · exact (htoken.2 hslots).isLongestToken hrest.beginsWith

/-- **Extraction recovers what ends by itself.** If a call is made of the literals of a definition
and of tokens, each of them but the last a string or a number with which the call does not go on,
those tokens are its arguments. -/
theorem rawArguments?_of_fillsUnambiguously {definition : Text} {template : Template}
    (hparsed : ofText? engine definition = .ok template) {tokens : List Text} {t : Text}
    (h : FillsUnambiguously template.pieces tokens t) :
    rawArguments? template t = some (tokens.map Argument.ofToken) := by
  have halternating := alternating_of_ofText? hparsed
  have hgreedy := (h.fillsLongest halternating).fillsGreedily
  exact rawArguments?_eq_some_iff.mpr
    ⟨tokens, rfl, ((extracts_and_fills_iff halternating).mpr hgreedy).1⟩

/-- A number in front of a string in which the next literal and an escaped mark stand, and at the
end a map that has the last literal in it. -/
theorem rawArguments?_number_string_map :
    ∃ template, ofText? .unlimited "add \x7ba\x7d\x7bb\x7d to \x7bc\x7d\x7d end".toList =
      .ok template
      ∧ FillsUnambiguously template.pieces
      ["-1.5".toList, "' to \\''".toList, "\x7bk\x7d end\x7d".toList]
          "add -1.5' to \\'' to \x7bk\x7d end\x7d\x7d end".toList
      ∧ rawArguments? template "add -1.5' to \\'' to \x7bk\x7d end\x7d\x7d end".toList =
          some [⟨"-1.5".toList, .double⟩, ⟨"' to \\''".toList, .string⟩,
          ⟨"\x7bk\x7d end\x7d".toList, .map⟩] := by
  let template : Template := ⟨"add \x7ba\x7d\x7bb\x7d to \x7bc\x7d\x7d end".toList,
    [.literal "add ".toList, .slot ⟨"\x7ba\x7d".toList, 4, none⟩,
    .slot ⟨"\x7bb\x7d".toList, 7, none⟩,
      .literal " to ".toList, .slot ⟨"\x7bc\x7d".toList, 14, none⟩, .literal "\x7d end".toList]⟩
  have hparsed : ofText? .unlimited "add \x7ba\x7d\x7bb\x7d to \x7bc\x7d\x7d end".toList =
    .ok template := by decide +kernel
  have hfills : FillsUnambiguously template.pieces
    ["-1.5".toList, "' to \\''".toList, "\x7bk\x7d end\x7d".toList]
      "add -1.5' to \\'' to \x7bk\x7d end\x7d\x7d end".toList := by
    have hnumber : EndsItself "-1.5".toList
      ("' to \\''".toList ++ " to \x7bk\x7d end\x7d\x7d end".toList) :=
      .inr ⟨Scan.run_start_number_end_iff.mp (by decide), by decide⟩
    have hstring : EndsItself "' to \\''".toList " to \x7bk\x7d end\x7d\x7d end".toList :=
      .inl (Scan.run_start_quotesEnd_iff.mp (by decide))
    refine division_literal_iff.mpr ⟨"add ".toList, _, rfl, by decide, ?_⟩
    refine .slot ⟨by decide, fun _ => hnumber⟩ (.slot ⟨by decide, fun _ => hstring⟩ ?_)
    refine division_literal_iff.mpr ⟨" to ".toList, _, rfl, by decide, ?_⟩
    refine .slot ⟨by decide, fun h => absurd rfl h⟩ ?_
    exact division_literal_iff.mpr ⟨"\x7d end".toList, [], rfl, by decide, .nil⟩
  refine ⟨template, hparsed, hfills, ?_⟩
  rw [rawArguments?_of_fillsUnambiguously hparsed hfills]
  decide +kernel

end StepPhrase.Call
