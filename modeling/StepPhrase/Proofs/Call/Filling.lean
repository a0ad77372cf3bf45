import Mathlib.Data.List.Induction
import StepPhrase.Call.Fit
import StepPhrase.Proofs.Argument.Tokens
import StepPhrase.Proofs.Text.Occurrence

/-!
# Fillings

A call fits a template when it can be divided into the template's pieces. `Fills` is that division
as a relation, and `fits_iff` shows that `Call.fits`, which follows all divisions at once, finds one
whenever there is one.

A run over the pieces keeps, for every position of the call, whether the pieces so far can end
there. That is as good as trying all divisions, since what follows depends on the position only and
not on the division that led to it; the tokens of the division are found again from the marks.

* **`Division`** — literals and tokens one after another, with nothing between them and nothing left
  over; what counts as a literal and as a token may depend on where it stands.
* **`Fills`** — the divisions into the literals, compared by `same`, and any tokens.
* **`IsOpening`** — what may stand in front: nothing, or a keyword and one blank.
* **`getElem?_foldl_afterPiece_iff`** — the invariant of the run over the pieces: a place is marked
  when the pieces so far fill the text between it and a place that was marked before.
-/

namespace StepPhrase.Call

open Template Text

/-- A text is divided into pieces. `literalFits` says which text may stand for a literal and
`tokenFits` which may fill a slot; both are told the pieces that follow, and the latter also the
text that follows. -/
inductive Division (literalFits : List Piece → Text → Text → Prop)
    (tokenFits : List Piece → Text → Text → Prop) : List Piece → List Text → Text → Prop where
  | nil : Division literalFits tokenFits [] [] []
  | literal {literal front rest : Text} {pieces : List Piece} {tokens : List Text}
      (hliteral : literalFits pieces literal front)
      (hrest : Division literalFits tokenFits pieces tokens rest) :
      Division literalFits tokenFits (.literal literal :: pieces) tokens (front ++ rest)
  | slot {s : Slot} {token rest : Text} {pieces : List Piece} {tokens : List Text}
      (htoken : tokenFits pieces token rest)
      (hrest : Division literalFits tokenFits pieces tokens rest) :
      Division literalFits tokenFits (.slot s :: pieces) (token :: tokens) (token ++ rest)

/-- A text consists of the pieces, where `same` compares the literals and tokens fill the slots.
There may be several fillings of one text, with different tokens. -/
def Fills (same : Char → Char → Bool) : List Piece → List Text → Text → Prop :=
  Division (fun _ literal front => SameBy same literal front) fun _ token _ =>
    Shape.token.Matches token

/-- What may stand in front of the pieces: nothing, or a keyword in any case and one blank. A second
blank would have to belong to the pieces. -/
def IsOpening (keywords : List Text) (t : Text) : Prop :=
  t = [] ∨ ∃ keyword ∈ keywords, ∃ front blank, t = front ++ [blank]
    ∧ SameBy sameFolded keyword front ∧ Unicode.isWhiteSpace blank = true

theorem isOpening_nil (keywords : List Text) : IsOpening keywords [] := Or.inl rfl

section Division

variable {literalFits tokenFits literalFits' tokenFits' : List Piece → Text → Text → Prop}

theorem division_nil_iff {tokens : List Text} {t : Text} :
    Division literalFits tokenFits [] tokens t ↔ tokens = [] ∧ t = [] := by
  constructor
  · rintro ⟨⟩
    exact ⟨rfl, rfl⟩
  · rintro ⟨rfl, rfl⟩
    exact .nil

theorem division_literal_iff {literal t : Text} {pieces : List Piece} {tokens : List Text} :
    Division literalFits tokenFits (.literal literal :: pieces) tokens t ↔
      ∃ front rest, t = front ++ rest ∧ literalFits pieces literal front
        ∧ Division literalFits tokenFits pieces tokens rest := by
  constructor
  · intro h
    cases h with
    | literal hliteral hrest => exact ⟨_, _, rfl, hliteral, hrest⟩
  · rintro ⟨front, rest, rfl, hliteral, hrest⟩
    exact .literal hliteral hrest

theorem division_slot_iff {s : Slot} {t : Text} {pieces : List Piece} {tokens : List Text} :
    Division literalFits tokenFits (.slot s :: pieces) tokens t ↔
      ∃ token rest others, t = token ++ rest ∧ tokens = token :: others
        ∧ tokenFits pieces token rest ∧ Division literalFits tokenFits pieces others rest := by
  constructor
  · intro h
    cases h with
    | slot htoken hrest => exact ⟨_, _, _, rfl, rfl, htoken, hrest⟩
  · rintro ⟨token, rest, others, rfl, rfl, htoken, hrest⟩
    exact .slot htoken hrest

theorem Division.mono {pieces : List Piece} {tokens : List Text} {t : Text}
    (h : Division literalFits tokenFits pieces tokens t)
    (hliteral : ∀ pieces literal front, literalFits pieces literal front →
      literalFits' pieces literal front)
    (htoken : ∀ pieces token rest, tokenFits pieces token rest → tokenFits' pieces token rest) :
    Division literalFits' tokenFits' pieces tokens t := by
  induction h with
  | nil => exact .nil
  | literal h _ ih => exact .literal (hliteral _ _ _ h) ih
  | slot h _ ih => exact .slot (htoken _ _ _ h) ih

theorem Division.length_eq {pieces : List Piece} {tokens : List Text} {t : Text}
    (h : Division literalFits tokenFits pieces tokens t) :
    tokens.length = (slotsOf pieces).length := by
  induction h with
  | nil => rfl
  | literal _ _ ih => simpa using ih
  | slot _ _ ih => simpa using ih

end Division

/-! ## Places

`Places` marks positions of a call. A piece leads from a mark to another when it fills the text
between the two, so what is marked behind a piece is said in terms of the text that starts at `i`.
-/

/-- A text fills a single piece: it is the literal up to case, or any token. -/
def FillsPiece : Piece → Text → Prop
  | .literal literal, t => SameBy sameFolded literal t
  | .slot _, t => Shape.token.Matches t

theorem fills_cons_iff {piece : Piece} {pieces : List Piece} {t : Text} :
    (∃ tokens, Fills sameFolded (piece :: pieces) tokens t) ↔
      ∃ v rest, t = v ++ rest ∧ FillsPiece piece v
        ∧ ∃ tokens, Fills sameFolded pieces tokens rest := by
  -- a literal takes no token and a slot takes one, so the tokens differ but not the text
  cases piece with
  | literal literal =>
    simp only [Fills, division_literal_iff, FillsPiece]
    constructor
    · rintro ⟨tokens, front, rest, heq, hsame, hrest⟩
      exact ⟨front, rest, heq, hsame, tokens, hrest⟩
    · rintro ⟨front, rest, heq, hsame, tokens, hrest⟩
      exact ⟨tokens, front, rest, heq, hsame, hrest⟩
  | slot s =>
    simp only [Fills, division_slot_iff, FillsPiece]
    constructor
    · rintro ⟨-, token, rest, others, heq, rfl, htoken, hrest⟩
      exact ⟨token, rest, heq, htoken, others, hrest⟩
    · rintro ⟨token, rest, heq, htoken, others, hrest⟩
      exact ⟨token :: others, token, rest, others, heq, rfl, htoken, hrest⟩

/-! ### Literals

A literal of `n` characters moves the marks by `n` places and keeps those in front of which it
stands. Comparing characters keeps the length, so the move does not depend on the text. -/

theorem getElem?_literalStarts (literal : Text) (places : Places) (t : Text) (i : Nat) :
    (literalStarts literal places t)[i]? =
      places[i]?.map fun here => here && beginsWith sameFolded literal (t.drop i) := by
  induction places generalizing t i with
  | nil => simp [literalStarts]
  | cons here places ih =>
    cases i with
    | zero => simp [literalStarts]
    | succ i =>
      rw [literalStarts, List.getElem?_cons_succ, List.getElem?_cons_succ, ih, List.drop_drop,
        Nat.add_comm]

theorem length_literalStarts (literal : Text) (places : Places) (t : Text) :
    (literalStarts literal places t).length = places.length := by
  induction places generalizing t with
  | nil => rfl
  | cons here places ih => simp [literalStarts, ih]

theorem length_afterLiteral (literal : Text) (places : Places) (t : Text) :
    (afterLiteral literal places t).length = places.length := by
  simp [afterLiteral, length_literalStarts]

theorem getElem?_afterLiteral_iff {literal t : Text} {places : Places}
    (hlength : places.length = t.length + 1) {j : Nat} :
    (afterLiteral literal places t)[j]? = some true ↔
      ∃ i v rest, places[i]? = some true ∧ t.drop i = v ++ rest ∧ i + v.length = j
        ∧ SameBy sameFolded literal v := by
  -- a literal that ends at `j` has begun its own length before that
  have hget : (afterLiteral literal places t)[j]? = some true ↔
      j < places.length ∧ literal.length ≤ j ∧
        (literalStarts literal places t)[j - literal.length]? = some true := by
    rw [afterLiteral, List.getElem?_take]
    split
    · next hlt =>
      by_cases hle : literal.length ≤ j
      · rw [List.getElem?_append_right (by simpa using hle)]
        simp [hlt, hle]
      · rw [List.getElem?_append_left (by simpa using hle)]
        simp [hle, List.getElem?_replicate]
    · next hge => simp [hge]
  rw [hget, getElem?_literalStarts]
  constructor
  · rintro ⟨hlt, hle, h⟩
    obtain ⟨here, hhere, hand⟩ := Option.map_eq_some_iff.mp h
    obtain ⟨rfl, hbegins⟩ := Bool.and_eq_true_iff.mp hand
    obtain ⟨front, rest, heq, hsame⟩ := beginsWith_iff.mp hbegins
    -- `front` has the length of the literal, so it ends at `j`
    refine ⟨j - literal.length, front, rest, hhere, heq, ?_, hsame⟩
    rw [← hsame.length_eq]
    omega
  · rintro ⟨i, v, rest, hplace, heq, rfl, hsame⟩
    -- a text is behind the place `i`, so `i` is a place of the call
    have hlengths := congrArg List.length heq
    rw [List.length_drop, List.length_append] at hlengths
    have hi : i < places.length := (List.getElem?_eq_some_iff.mp hplace).1
    have hsub : i + v.length - literal.length = i := by
      rw [hsame.length_eq]
      omega
    refine ⟨by omega, by rw [hsame.length_eq]; omega, ?_⟩
    rw [hsub, hplace, Option.map_some, Bool.true_and, beginsWith_iff.mpr ⟨v, rest, heq, hsame⟩]

/-! ### Tokens

Tokens of all lengths are read at once: a list of scans is under way, and each mark starts another.
A token ends where one of the scans has come to its end. -/

theorem mem_stepAll_iff {scans : List Scan} {c : Char} {next : Scan} :
    next ∈ stepAll scans c ↔ ∃ scan ∈ scans, scan.step c = some next := by
  unfold stepAll
  induction scans with
  | nil => simp
  | cons scan scans ih =>
    rw [List.foldr_cons]
    cases hstep : scan.step c with
    | none => simp [hstep, ih]
    | some s => simp [hstep, ih, eq_comm]

theorem length_afterToken (scans : List Scan) {places : Places} {t : Text}
    (hlength : places.length = t.length + 1) :
    (afterToken scans places t).length = places.length := by
  induction t generalizing scans places with
  | nil =>
    obtain ⟨here, rfl⟩ := List.length_eq_one_iff.mp hlength
    rfl
  | cons c t ih =>
    obtain ⟨here, places, rfl⟩ := List.exists_cons_of_length_eq_add_one hlength
    rw [List.length_cons, List.length_cons] at hlength
    simp only [afterToken, List.length_cons]
    rw [ih _ (by omega)]

theorem getElem?_afterToken_zero (scans : List Scan) (here : Bool) (places : Places) (t : Text) :
    (afterToken scans (here :: places) t)[0]? = some (scans.any Scan.isEnd) := by
  cases t <;> rfl

theorem exists_scan_accepts_nil_iff {scans : List Scan} {t : Text} :
    (∃ scan ∈ scans, ∃ v rest, t = v ++ rest ∧ v.length = 0 ∧ scan.Accepts v) ↔
      scans.any Scan.isEnd = true := by
  rw [List.any_eq_true]
  refine exists_congr fun scan => and_congr Iff.rfl ?_
  constructor
  · rintro ⟨v, rest, -, hv, haccepts⟩
    rw [List.length_eq_zero_iff.mp hv] at haccepts
    exact Scan.accepts_nil_iff.mp haccepts
  · exact fun hend => ⟨[], t, rfl, rfl, Scan.accepts_nil_iff.mpr hend⟩

/-- Reading a token from the first place, or going on with one, is to read its first character. This
is the step of the induction in `getElem?_afterToken_iff`, for all scans at once. -/
theorem exists_scan_accepts_succ_iff {scans : List Scan} {here : Bool} {c : Char} {t : Text}
    {j : Nat} :
    (∃ scan ∈ stepAll (if here then .start :: scans else scans) c,
        ∃ v rest, t = v ++ rest ∧ v.length = j ∧ scan.Accepts v) ↔
      (∃ scan ∈ scans, ∃ v rest, c :: t = v ++ rest ∧ v.length = j + 1 ∧ scan.Accepts v)
        ∨ (here = true ∧ ∃ v rest, c :: t = v ++ rest ∧ v.length = j + 1
          ∧ Shape.token.Matches v) := by
  -- reading the character moves a scan one state on and takes the character off the token
  have hstep : ∀ scan : Scan,
      (∃ v rest, c :: t = v ++ rest ∧ v.length = j + 1 ∧ scan.Accepts v) ↔
        ∃ next, scan.step c = some next
          ∧ ∃ v rest, t = v ++ rest ∧ v.length = j ∧ next.Accepts v := by
    intro scan
    constructor
    · rintro ⟨v, rest, heq, hlength, haccepts⟩
      obtain ⟨d, v, rfl⟩ := List.exists_cons_of_length_eq_add_one hlength
      obtain ⟨rfl, rfl⟩ := List.cons.inj heq
      obtain ⟨next, hnext, hv⟩ := Scan.accepts_cons_iff.mp haccepts
      exact ⟨next, hnext, v, rest, rfl, Nat.succ.inj hlength, hv⟩
    · rintro ⟨next, hnext, v, rest, rfl, rfl, hv⟩
      exact ⟨c :: v, rest, rfl, rfl, Scan.accepts_cons_iff.mpr ⟨next, hnext, hv⟩⟩
  simp only [Shape.token_matches_iff, hstep, mem_stepAll_iff]
  cases here with
  | true =>
    simp only [if_true, List.mem_cons, true_and]
    constructor
    · rintro ⟨next, ⟨scan, rfl | hscan, hnext⟩, hv⟩
      · exact Or.inr ⟨next, hnext, hv⟩
      · exact Or.inl ⟨scan, hscan, next, hnext, hv⟩
    · rintro (⟨scan, hscan, next, hnext, hv⟩ | ⟨next, hnext, hv⟩)
      · exact ⟨next, ⟨scan, Or.inr hscan, hnext⟩, hv⟩
      · exact ⟨next, ⟨.start, Or.inl rfl, hnext⟩, hv⟩
  | false =>
    simp only [Bool.false_eq_true, if_false, false_and, or_false]
    constructor
    · rintro ⟨next, ⟨scan, hscan, hnext⟩, hv⟩
      exact ⟨scan, hscan, next, hnext, hv⟩
    · rintro ⟨scan, hscan, next, hnext, hv⟩
      exact ⟨next, ⟨scan, hscan, hnext⟩, hv⟩

/-- The tokens that end at a place are those that were under way and those that began at a mark. A
token under way is described by what its scan still accepts, so the statement covers every call of
`afterToken` on the way through the text. -/
theorem getElem?_afterToken_iff {scans : List Scan} {places : Places} {t : Text}
    (hlength : places.length = t.length + 1) {j : Nat} :
    (afterToken scans places t)[j]? = some true ↔
      (∃ scan ∈ scans, ∃ v rest, t = v ++ rest ∧ v.length = j ∧ scan.Accepts v)
        ∨ ∃ i v rest, places[i]? = some true ∧ t.drop i = v ++ rest ∧ i + v.length = j
            ∧ Shape.token.Matches v := by
  -- on the text: behind its first character the tokens under way are one state further, and a token
  -- that begins at the first mark is under way as well
  induction t generalizing scans places j with
  | nil =>
    obtain ⟨here, rfl⟩ := List.length_eq_one_iff.mp hlength
    have hnone : ¬∃ i v rest, [here][i]? = some true ∧ ([] : Text).drop i = v ++ rest
        ∧ i + v.length = j ∧ Shape.token.Matches v := by
      rintro ⟨i, v, rest, -, heq, -, htoken⟩
      rw [List.drop_nil] at heq
      exact Shape.ne_nil_of_token_matches htoken (List.append_eq_nil_iff.mp heq.symm).1
    rw [or_iff_left hnone]
    cases j with
    | zero => rw [getElem?_afterToken_zero, Option.some_inj, exists_scan_accepts_nil_iff]
    | succ j =>
      refine iff_of_false (by simp [afterToken]) ?_
      rintro ⟨scan, -, v, rest, heq, hv, -⟩
      rw [(List.append_eq_nil_iff.mp heq.symm).1] at hv
      cases hv
  | cons c t ih =>
    obtain ⟨here, places, rfl⟩ := List.exists_cons_of_length_eq_add_one hlength
    cases j with
    | zero =>
      rw [getElem?_afterToken_zero, Option.some_inj, exists_scan_accepts_nil_iff, iff_self_or]
      rintro ⟨i, v, rest, -, -, hv, htoken⟩
      -- a token has a first character, so none ends where it began
      exact absurd (List.length_eq_zero_iff.mp (Nat.eq_zero_of_add_eq_zero hv).2)
        (Shape.ne_nil_of_token_matches htoken)
    | succ j =>
      rw [afterToken, List.getElem?_cons_succ, ih (Nat.succ.inj hlength),
        exists_scan_accepts_succ_iff, or_assoc]
      refine or_congr Iff.rfl ?_
      constructor
      · rintro (⟨rfl, v, rest, heq, hv, htoken⟩ | ⟨i, v, rest, hplace, heq, rfl, htoken⟩)
        · -- the mark is at the place 0 or at one behind it, where the text has lost a character
          exact ⟨0, v, rest, rfl, heq, by omega, htoken⟩
        · exact ⟨i + 1, v, rest, hplace, heq, by omega, htoken⟩
      · rintro ⟨i, v, rest, hplace, heq, hv, htoken⟩
        cases i with
        | zero =>
          rw [List.getElem?_cons_zero, Option.some_inj] at hplace
          exact Or.inl ⟨hplace, v, rest, heq, by omega, htoken⟩
        | succ i => exact Or.inr ⟨i, v, rest, hplace, heq, by omega, htoken⟩

/-! ### All pieces

A literal and a slot differ only in what they do with the marks. Behind `FillsPiece` the two are
one, and the run over the pieces is a single induction. -/

theorem length_afterPiece {t : Text} {places : Places} (hlength : places.length = t.length + 1)
    (piece : Piece) : (afterPiece t places piece).length = t.length + 1 := by
  cases piece with
  | literal literal => rw [afterPiece, length_afterLiteral, hlength]
  | slot s => rw [afterPiece, length_afterToken [] hlength, hlength]

theorem getElem?_afterPiece_iff {t : Text} {places : Places}
    (hlength : places.length = t.length + 1) {piece : Piece} {j : Nat} :
    (afterPiece t places piece)[j]? = some true ↔
      ∃ i v rest, places[i]? = some true ∧ t.drop i = v ++ rest ∧ i + v.length = j
        ∧ FillsPiece piece v := by
  cases piece with
  | literal literal => exact getElem?_afterLiteral_iff hlength
  | slot s =>
    rw [afterPiece, getElem?_afterToken_iff hlength]
    simp [FillsPiece]

/-- **What the run over the pieces keeps.** A place is marked behind the pieces exactly when they
fill the text between it and a place that was marked in front of them. -/
theorem getElem?_foldl_afterPiece_iff {t : Text} {places : Places}
    (hlength : places.length = t.length + 1) {pieces : List Piece} {j : Nat} :
    (pieces.foldl (afterPiece t) places)[j]? = some true ↔
      ∃ i v rest, places[i]? = some true ∧ t.drop i = v ++ rest ∧ i + v.length = j
        ∧ ∃ tokens, Fills sameFolded pieces tokens v := by
  -- on the pieces, for any marks: behind the first piece the same is said of the marks it leaves
  induction pieces generalizing places with
  | nil =>
    simp only [List.foldl_nil, Fills, division_nil_iff]
    constructor
    · intro hplace
      exact ⟨j, [], t.drop j, hplace, rfl, rfl, [], rfl, rfl⟩
    · rintro ⟨i, v, rest, hplace, -, rfl, tokens, -, rfl⟩
      exact hplace
  | cons piece pieces ih =>
    rw [List.foldl_cons, ih (length_afterPiece hlength piece)]
    simp only [getElem?_afterPiece_iff hlength, fills_cons_iff]
    -- `v` fills the first piece and ends where `w`, which fills the others, begins
    constructor
    · rintro ⟨i', w, rest, ⟨i, v, rest', hplace, heq, rfl, hpiece⟩, heq', rfl, hw⟩
      rw [← List.drop_drop, heq, List.drop_left] at heq'
      refine ⟨i, v ++ w, rest, hplace, ?_, ?_, v, w, rfl, hpiece, hw⟩
      · rw [heq, heq', List.append_assoc]
      · rw [List.length_append, Nat.add_assoc]
    · rintro ⟨i, u, rest, hplace, heq, rfl, v, w, rfl, hpiece, hw⟩
      rw [List.append_assoc] at heq
      refine ⟨i + v.length, w, rest, ⟨i, v, w ++ rest, hplace, heq, rfl, hpiece⟩, ?_, ?_, hw⟩
      · rw [← List.drop_drop, heq, List.drop_left]
      · rw [List.length_append, Nat.add_assoc]

/-! ## Fitting

The marks to begin with are the openings of the call, and the call fits when its end is marked. -/

theorem length_beginnings (keywords : List Text) (t : Text) :
    (beginnings keywords t).length = t.length + 1 := by
  simp [beginnings, placesOf]

theorem getElem?_placesOf_iff {t : Text} {positions : List Nat} {i : Nat} :
    (placesOf t positions)[i]? = some true ↔ i ≤ t.length ∧ i ∈ positions := by
  rw [placesOf, List.getElem?_map, Option.map_eq_some_iff]
  constructor
  · rintro ⟨k, hk, hmem⟩
    obtain ⟨hlt, rfl⟩ := List.getElem?_eq_some_iff.mp hk
    rw [List.getElem_range, List.contains_iff_mem] at hmem
    rw [List.length_range] at hlt
    exact ⟨Nat.le_of_lt_succ hlt, hmem⟩
  · rintro ⟨hle, hmem⟩
    exact ⟨i, List.getElem?_range (Nat.lt_succ_of_le hle), List.contains_iff_mem.mpr hmem⟩

/-- The pieces may begin behind an opening. More than one place can be marked, for one keyword may
be the beginning of another. -/
theorem getElem?_beginnings_iff {keywords : List Text} {t : Text} {i : Nat} :
    (beginnings keywords t)[i]? = some true ↔
      ∃ opening body, t = opening ++ body ∧ opening.length = i ∧ IsOpening keywords opening := by
  rw [beginnings, getElem?_placesOf_iff, List.mem_cons, List.mem_filterMap]
  constructor
  · rintro ⟨-, rfl | ⟨keyword, hkeyword, h⟩⟩
    · exact ⟨[], t, rfl, rfl, isOpening_nil keywords⟩
    · split at h
      · next blank rest hdrop =>
        split at h
        · next hblank =>
          obtain ⟨front, rfl, hsame⟩ := dropLiteral?_eq_some_iff.mp hdrop
          refine ⟨front ++ [blank], rest, by simp, ?_, Or.inr
            ⟨keyword, hkeyword, front, blank, rfl, hsame, hblank⟩⟩
          rw [← Option.some.inj h, List.length_append, hsame.length_eq, List.length_singleton]
        · cases h
      · cases h
  · rintro ⟨opening, body, rfl, rfl, hopening⟩
    refine ⟨by simp, ?_⟩
    rcases hopening with rfl | ⟨keyword, hkeyword, front, blank, rfl, hsame, hblank⟩
    · exact Or.inl rfl
    · refine Or.inr ⟨keyword, hkeyword, ?_⟩
      have hdrop : Keyword.drop? keyword ((front ++ [blank]) ++ body) = some (blank :: body) :=
        dropLiteral?_eq_some_iff.mpr ⟨front, by simp, hsame⟩
      rw [hdrop, List.length_append, hsame.length_eq]
      exact if_pos hblank

/-- **A call fits exactly when it is an opening and a filling of the pieces.** No division is
missed, whichever of the openings it begins with and wherever its tokens end. -/
theorem fits_iff {keywords : List Text} {pieces : List Piece} {t : Text} :
    fits keywords pieces t = true ↔
      ∃ opening body tokens, t = opening ++ body ∧ IsOpening keywords opening
        ∧ Fills sameFolded pieces tokens body := by
  have hlength := length_beginnings keywords t
  have hfold : (pieces.foldl (afterPiece t) (beginnings keywords t)).length = t.length + 1 := by
    induction pieces using List.reverseRecOn with
    | nil => exact hlength
    | append_singleton pieces piece ih =>
      rw [List.foldl_append]
      exact length_afterPiece ih piece
  rw [fits, beq_iff_eq, List.getLast?_eq_getElem?, hfold, Nat.add_sub_cancel,
    getElem?_foldl_afterPiece_iff hlength]
  simp only [getElem?_beginnings_iff]
  constructor
  · rintro ⟨-, body, rest, ⟨opening, after, rfl, rfl, hopening⟩, heq, hend, tokens, hbody⟩
    rw [List.drop_left] at heq
    -- the last place is the end of the call, so nothing is behind the body
    have hrest : rest = [] := by
      rw [heq, List.length_append, List.length_append] at hend
      exact List.length_eq_zero_iff.mp (by omega)
    rw [hrest, List.append_nil] at heq
    exact ⟨opening, body, tokens, by rw [heq], hopening, hbody⟩
  · rintro ⟨opening, body, tokens, rfl, hopening, hbody⟩
    exact ⟨opening.length, body, [], ⟨opening, body, rfl, rfl, hopening⟩, by simp, by simp,
      tokens, hbody⟩

end StepPhrase.Call
