import StepPhrase.Proofs.Argument.LetterCase
import StepPhrase.Proofs.Call.Gist
import StepPhrase.Proofs.Call.Ranges
import StepPhrase.Proofs.Template.LetterCase

/-!
# The case of letters makes no difference

A call in small letters goes the same way through everything that matching does, and its arguments
are those of the call, in small letters. Of a template only its gist counts. So neither the case of
letters in a call nor that of letters in the literals of a definition can be seen from whether the
call matches.

Case is that of ASCII letters throughout. A token keeps its shape when the case of its letters
changes, and a letter takes one byte in either case, so tokens stand in the same places. Letters
beyond ASCII do not have that property.

* **`fits_small`**, **`takeTokens?_small`**, **`arguments?_small`** — the parts of matching, for
  calls.
* **`match?_small`** — matching as a whole, for calls.
* **`match?_letterCase`** — in terms of definitions and calls, for an engine that is blind to case.
-/

namespace StepPhrase.Call

open Template Text

variable {engine : Engine}

/-! ## Calls in small letters

Each part of matching commutes with making a text small. The parts that compare with literals are
the reason: they compare in a way that ignores the case of ASCII letters and of others besides. -/

theorem skip?_small (literal t : Text) : skip? literal (small t) = (skip? literal t).map small := by
  rw [skip?, skip?, dropThrough?_small ignoresCase_sameLowered]
  split <;> rfl

theorem takeToken?_small (frame : Frame) (t : Text) :
    takeToken? frame (small t) = (takeToken? frame t).map (Prod.map small small) := by
  have hfirst := firstToken?_small (beginsWith_small ignoresCase_sameFolded frame.boundary)
  rw [takeToken?, takeToken?, skip?_small]
  cases skip? frame.lead t with
  | none => rfl
  | some rest =>
    simp only [Option.map_some, skip?_small]
    cases skip? frame.boundary rest with
    | none => rfl
    | some _ => exact hfirst rest

theorem takeTokens?_small (frames : List Frame) (t : Text) :
    takeTokens? frames (small t) = (takeTokens? frames t).map (·.map small) := by
  induction frames generalizing t with
  | nil => rfl
  | cons frame frames ih =>
    rw [takeTokens?, takeTokens?, takeToken?_small]
    cases takeToken? frame t with
    | none => rfl
    | some taken =>
      simp only [Option.map_some, Prod.map, ih, Option.map_map]
      rfl

/-- **The tokens of a call in small letters stand in the same places**, for a letter takes as many
bytes as its small form. -/
theorem tokenRanges?_small (frames : List Frame) (offset : Nat) (t : Text) :
    tokenRanges? frames offset (small t) = tokenRanges? frames offset t := by
  induction frames generalizing offset t with
  | nil => rfl
  | cons frame frames ih =>
    rw [tokenRanges?, tokenRanges?, takeToken?_small]
    cases takeToken? frame t with
    | none => rfl
    | some taken => simp only [Option.map_some, Prod.map, byteLength_small, ih]

theorem rawArguments?_small (template : Template) (t : Text) :
    rawArguments? template (small t) = (rawArguments? template t).map (·.map Argument.small) := by
  rw [rawArguments?, rawArguments?, takeTokens?_small, Option.map_map, Option.map_map]
  simp [Function.comp_def, Argument.ofToken_small]

theorem arguments?_small (template : Template) (t : Text) :
    arguments? template (small t) = (arguments? template t).map (·.map Argument.small) := by
  rw [arguments?, arguments?, rawArguments?_small, Option.bind_map, Option.map_bind]
  congr 1
  funext raw
  simp only [Function.comp_apply, List.map_map, ← arrange?_map]
  congr 2
  funext a
  exact Argument.unquoted_small a

/-! ### Fitting

The marks are the same marks, since a text in small letters is as long and every scan goes on with a
letter exactly as it does with the other case of it. -/

theorem literalStarts_small (literal : Text) (places : Places) (t : Text) :
    literalStarts literal places (small t) = literalStarts literal places t := by
  induction places generalizing t with
  | nil => rfl
  | cons here places ih =>
    have hdrop : (small t).drop 1 = small (t.drop 1) := List.map_drop.symm
    rw [literalStarts, literalStarts, beginsWith_small ignoresCase_sameFolded, hdrop, ih]

theorem stepAll_toLower (scans : List Scan) (c : Char) :
    stepAll scans c.toLower = stepAll scans c := by
  simp only [stepAll, Scan.step_toLower]

theorem afterToken_small (scans : List Scan) (places : Places) (t : Text) :
    afterToken scans places (small t) = afterToken scans places t := by
  induction places generalizing scans t with
  | nil => rfl
  | cons here places ih =>
    cases t with
    | nil => rfl
    | cons c t => simp only [small_cons, afterToken, stepAll_toLower, ih]

theorem afterPiece_small (t : Text) (places : Places) (piece : Piece) :
    afterPiece (small t) places piece = afterPiece t places piece := by
  cases piece with
  | literal literal => rw [afterPiece, afterPiece, afterLiteral, afterLiteral, literalStarts_small]
  | slot s => exact afterToken_small [] places t

theorem beginnings_small (keywords : List Text) (t : Text) :
    beginnings keywords (small t) = beginnings keywords t := by
  -- the marks are as many as before; what is left is that each keyword is dropped alike
  have hplaces : ∀ positions, placesOf (small t) positions = placesOf t positions := by
    simp [placesOf]
  rw [beginnings, beginnings, hplaces]
  congr 3
  funext keyword
  rw [Keyword.drop?_small]
  cases Keyword.drop? keyword t with
  | none => rfl
  | some behind =>
    cases behind with
    | nil => rfl
    | cons c rest => simp

/-- **A call in small letters fits the same templates.** Keywords and literals are compared without
regard to case, and tokens are the same but for case. -/
theorem fits_small (keywords : List Text) (pieces : List Piece) (t : Text) :
    fits keywords pieces (small t) = fits keywords pieces t := by
  have hpiece : afterPiece (small t) = afterPiece t :=
    funext₂ fun places piece => afterPiece_small t places piece
  rw [fits, fits, hpiece, beginnings_small]

/-- **A call in small letters matches the same templates, with its arguments in small letters.** No
question is put to the engine about the call, so nothing is asked of the engine here. -/
theorem match?_small (setting : Setting) (template : Template) (t : Text) :
    match? setting template (small t) =
      (match? setting template t).map (·.map Argument.small) := by
  refine Option.ext fun arguments => ?_
  rw [match?_eq_some_iff, Option.map_eq_some_iff]
  simp only [match?_eq_some_iff, SizeLimit.permits, byteLength_small, fits_small, arguments?_small,
    Option.map_eq_some_iff]
  constructor
  · rintro ⟨hcall, hsource, hcompiles, hfits, found, harguments, rfl⟩
    exact ⟨found, ⟨hcall, hsource, hcompiles, hfits, harguments⟩, rfl⟩
  · rintro ⟨found, ⟨hcall, hsource, hcompiles, hfits, harguments⟩, rfl⟩
    exact ⟨hcall, hsource, hcompiles, hfits, found, harguments, rfl⟩

/-! ## Definitions and calls

Two calls are the same up to case when they are the same in small letters, and two definitions when
the same holds of them and their slots are written alike. A slot has to be, for its name is a key.
-/

/-- **The case of ASCII letters makes no difference to matching.** Of two definitions that differ in
it only, and not in their slots, both are templates or none is, and they match the same calls with
the same arguments. Of two calls that differ in it only both match or none does. The arguments have
the same shapes then and, as written, stand in the same bytes of the two calls. Of the engine it is
asked that the case of letters in an expression makes no difference to whether it is compiled. -/
theorem match?_letterCase {definition other : Text} {template : Template} {setting : Setting}
    (hblind : setting.engine.IsCaseBlind)
    (hparsed : ofText? setting.engine definition = .ok template)
    (hcase : small definition = small other) (hslots : slotTokens? definition = slotTokens? other) :
    (∃ variant, ofText? setting.engine other = .ok variant
        ∧ ∀ call, match? setting variant call = match? setting template call)
      ∧ ∀ call call', small call = small call' →
        (match? setting template call).map (·.map Argument.shape) =
            (match? setting template call').map (·.map Argument.shape)
          ∧ ∀ t : Template, valueRanges? t call = valueRanges? t call'
            ∧ rawArguments? t call = ((valueRanges? t call).bind fun ranges =>
                ranges.mapM call.slice?).map (·.map Argument.ofToken)
            ∧ rawArguments? t call' = ((valueRanges? t call).bind fun ranges =>
                ranges.mapM call'.slice?).map (·.map Argument.ofToken) := by
  constructor
  · -- the other definition is a template with the same gist, and its gist is all that matching
    -- reads
    obtain ⟨variant, hvariant, hgist⟩ := exists_gist_of_small hblind hparsed hcase hslots
    have hstripped : (setting.stripped variant).pieces.map Piece.gist =
        (setting.stripped template).pieces.map Piece.gist :=
      pieces_withoutKeyword_map_gist hgist
    refine ⟨variant, hvariant, fun call => match?_eq_of_gist ?_ ?_ hstripped call⟩
    · rw [(ofText?_eq_ok hvariant).1, (ofText?_eq_ok hparsed).1, SizeLimit.permits,
        SizeLimit.permits, byteLength_eq_of_small hcase]
    · exact compiles_call_eq_of_gist hblind _ hstripped
  · intro call call' hcall
    have hranges : ∀ t : Template, valueRanges? t call = valueRanges? t call' := by
      intro t
      rw [valueRanges?, valueRanges?, ← tokenRanges?_small, hcall, tokenRanges?_small]
    refine ⟨?_, fun t => ⟨hranges t, rawArguments?_eq_slices t call, ?_⟩⟩
    · -- both calls have the shapes that their common form in small letters has
      have hshape : ∀ c, (match? setting template (small c)).map (·.map Argument.shape) =
          (match? setting template c).map (·.map Argument.shape) := by
        intro c
        rw [match?_small, Option.map_map]
        simp [Function.comp_def]
      rw [← hshape call, hcall, hshape call']
    · rw [hranges t]
      exact rawArguments?_eq_slices t call'

/-- A keyword, a literal and a quoted value in other letters. -/
theorem match?_letterCase_given :
    ∃ template variant, ofText? .unlimited "Given Mia SETS {Name} to {n}".toList = .ok template
      ∧ small "Given Mia SETS {Name} to {n}".toList = small "GIVEN mia sets {Name} TO {n}".toList
      ∧ slotTokens? "Given Mia SETS {Name} to {n}".toList =
          slotTokens? "GIVEN mia sets {Name} TO {n}".toList
      ∧ ofText? .unlimited "GIVEN mia sets {Name} TO {n}".toList = .ok variant
      ∧ (∀ call, match? ⟨.unlimited, .empty, .default⟩ variant call =
        match? ⟨.unlimited, .empty, .default⟩ template call)
      ∧ small "when Mia sets 'Ab' to 5".toList = small "WHEN mia SETS 'aB' To 5".toList
      ∧ (match? ⟨.unlimited, .empty, .default⟩ template "when Mia sets 'Ab' to 5".toList).map
          (·.map Argument.shape) = some [.string, .long]
      ∧ (match? ⟨.unlimited, .empty, .default⟩ template "WHEN mia SETS 'aB' To 5".toList).map
          (·.map Argument.shape) = some [.string, .long]
      ∧ valueRanges? template "when Mia sets 'Ab' to 5".toList =
          valueRanges? template "WHEN mia SETS 'aB' To 5".toList := by
  have hparsed : ofText? .unlimited "Given Mia SETS {Name} to {n}".toList =
      .ok ⟨"Given Mia SETS {Name} to {n}".toList, [.literal "Given Mia SETS ".toList,
        .slot ⟨"{Name}".toList, 15, none⟩, .literal " to ".toList,
        .slot ⟨"{n}".toList, 25, none⟩]⟩ := by
    decide +kernel
  have hcase : small "Given Mia SETS {Name} to {n}".toList =
      small "GIVEN mia sets {Name} TO {n}".toList := by
    decide +kernel
  have hslots : slotTokens? "Given Mia SETS {Name} to {n}".toList =
      slotTokens? "GIVEN mia sets {Name} TO {n}".toList := by
    decide +kernel
  have hcall : small "when Mia sets 'Ab' to 5".toList = small "WHEN mia SETS 'aB' To 5".toList := by
    decide +kernel
  have hshapes : (match? ⟨.unlimited, .empty, .default⟩
      ⟨"Given Mia SETS {Name} to {n}".toList, [.literal "Given Mia SETS ".toList,
        .slot ⟨"{Name}".toList, 15, none⟩, .literal " to ".toList, .slot ⟨"{n}".toList, 25, none⟩]⟩
      "when Mia sets 'Ab' to 5".toList).map (·.map Argument.shape) = some [.string, .long] := by
    decide +kernel
  obtain ⟨⟨variant, hvariant, hmatch⟩, hcalls⟩ :=
    @match?_letterCase _ _ _
      ⟨.unlimited, .empty, .default⟩ Engine.isCaseBlind_unlimited hparsed hcase hslots
  obtain ⟨hsame, hplaces⟩ := hcalls _ _ hcall
  exact ⟨_, variant, hparsed, hcase, hslots, hvariant, hmatch, hcall, hshapes, hsame ▸ hshapes,
    (hplaces _).1⟩

end StepPhrase.Call
