import StepPhrase.Call.Match
import StepPhrase.Proofs.Call.Arrangement
import StepPhrase.Proofs.Call.Tiling

/-!
# What a match says about a call

A match joins two ways of dividing a call that do not know of each other: `fits` finds out whether
there is any filling, and extraction walks along with first matches. This module relates the two for
whole calls.

The two agree when the walk is greedy all the way: a token is taken as long as the boundary behind
it allows, and whatever is then in front of the next literal is skipped. A walk may skip text that
no filling has a place for, and a filling may end a token earlier than the walk does.

* **`match?_eq_some_iff`** — a call matches exactly when it is short enough, fits, and has
  arguments; that the arguments are counted once more changes nothing.
* **`exists_filling_of_match?`** — a call that matches is an opening and a filling of the pieces,
  and the raw arguments make up such a filling exactly when there is a greedy one.
* **`exists_match?_iff_of_fills`** — a call that is written out from a template matches exactly when
  the walk gets to its end, and the walk finds the tokens written exactly when each is the longest
  at its place.
-/

namespace StepPhrase.Call

open Template Text

variable {engine : Engine}

/-- A template as calls are matched against it: without its keyword. -/
abbrev Setting.stripped (setting : Setting) (template : Template) : Template :=
  template.withoutKeyword setting.engine setting.properties.keywords

/-- Whether the engine compiles the expression that calls of a template are matched with. It has the
keywords in it, which the expressions of the template itself have not. -/
abbrev Setting.compiles (setting : Setting) (template : Template) : Bool :=
  setting.engine.compiles
    (.call setting.properties.keywords (bodyOf (setting.stripped template).pieces))

variable {setting : Setting} {template : Template} {call : Text}

theorem Setting.slots_stripped (setting : Setting) (template : Template) :
    (setting.stripped template).slots = template.slots :=
  slots_withoutKeyword setting.properties.keywords template

/-- A call matches with some arguments exactly when call and definition are within the limit, the
engine compiles the expression, the call fits, and these are its arguments. -/
theorem match?_eq_some_iff {arguments : List Argument} :
    match? setting template call = some arguments ↔
      setting.limit.permits call = true ∧ setting.limit.permits template.source = true
        ∧ setting.compiles template = true
        ∧ fits setting.properties.keywords (setting.stripped template).pieces call = true
        ∧ arguments? (setting.stripped template) call = some arguments := by
  unfold match?
  simp only [Bool.and_eq_true, and_assoc]
  split
  · next hguards =>
    cases harguments : arguments? (setting.stripped template) call with
    | none => simp
    | some found =>
      -- there is an argument for each slot anyway, so to count them refuses nothing
      have hlength := length_of_arguments? harguments
      simp [hlength, hguards]
  · next hguards =>
    refine iff_of_false (by simp) ?_
    rintro ⟨hcall, hsource, hcompiles, hfits, -⟩
    exact hguards ⟨hcall, hsource, hcompiles, hfits⟩

theorem alternating_stripped {definition : Text}
    (hparsed : ofText? engine definition = .ok template)
    (setting : Setting) : Alternating (setting.stripped template).pieces :=
  (alternating_of_ofText? hparsed).withoutKeyword setting.properties.keywords

/-! ## From a match to a filling

A match gives an opening, a filling behind it and raw arguments, but says nothing about the raw
arguments being the tokens of that filling. They are, if any filling is greedy at all. -/

/-- **A call that matches is an opening and a filling of the pieces.** The raw arguments are tokens
that the walk finds in it, one for each slot. Behind an opening that the walk does not see, they
fill the rest exactly when some tokens fill it greedily. -/
theorem exists_filling_of_match? {definition : Text} {arguments : List Argument}
    (hparsed : ofText? setting.engine definition = .ok template)
    (hmatch : match? setting template call = some arguments) :
    ∃ values, rawArguments? (setting.stripped template) call = some (values.map Argument.ofToken)
      ∧ values.length = template.slots.length
      ∧ (∀ value ∈ values, Shape.token.Matches value)
      ∧ Extracts (setting.stripped template).frames call values
      ∧ (∃ opening body tokens, call = opening ++ body
          ∧ IsOpening setting.properties.keywords opening
          ∧ Fills sameFolded (setting.stripped template).pieces tokens body)
      ∧ ∀ opening body, call = opening ++ body → IsOpening setting.properties.keywords opening →
          takeTokens? (setting.stripped template).frames call
            = takeTokens? (setting.stripped template).frames body →
          (Fills sameFolded (setting.stripped template).pieces values body ↔
            ∃ tokens, FillsGreedily (setting.stripped template).pieces tokens body) := by
  obtain ⟨-, -, -, hfits, harguments⟩ := match?_eq_some_iff.mp hmatch
  obtain ⟨raw, hraw, -⟩ := Option.bind_eq_some_iff.mp harguments
  obtain ⟨values, rfl, hextracts⟩ := rawArguments?_eq_some_iff.mp hraw
  have halternating := alternating_stripped hparsed setting
  refine ⟨values, hraw, ?_, hextracts.isToken, hextracts, fits_iff.mp hfits, ?_⟩
  · rw [hextracts.length_eq, length_frames, slots_withoutKeyword]
  · rintro opening body - - hunseen
    have hwalk : Extracts (setting.stripped template).frames body values :=
      takeTokens?_eq_some_iff.mp (hunseen ▸ takeTokens?_eq_some_iff.mpr hextracts)
    constructor
    · intro hfills
      exact ⟨values, (extracts_and_fills_iff halternating).mp ⟨hwalk, hfills⟩⟩
    · rintro ⟨tokens, hgreedy⟩
      -- the walk is the only one, so the tokens of the greedy filling are the values
      obtain ⟨hextracts', hfills⟩ := (extracts_and_fills_iff halternating).mpr hgreedy
      rwa [hwalk.eq hextracts']

/-- A call with a keyword in front. -/
theorem exists_filling_of_match?_given :
    ∃ template arguments, ofText? .unlimited "set {a} to {b}".toList = .ok template
      ∧ match? ⟨.unlimited, .empty, .default⟩ template "Given set 1 to 'x'".toList = some arguments
      ∧ ∃ values, values.length = template.slots.length
          ∧ Extracts (Setting.stripped ⟨.unlimited, .empty, .default⟩ template).frames
              "Given set 1 to 'x'".toList values
          ∧ ∃ opening body tokens, "Given set 1 to 'x'".toList = opening ++ body
              ∧ IsOpening Bindings.empty.keywords opening
              ∧ Fills sameFolded
                (Setting.stripped ⟨.unlimited, .empty, .default⟩ template).pieces tokens
                  body := by
  have hparsed : ofText? .unlimited "set {a} to {b}".toList =
      .ok ⟨"set {a} to {b}".toList, [.literal "set ".toList, .slot ⟨"{a}".toList, 4, none⟩,
        .literal " to ".toList, .slot ⟨"{b}".toList, 11, none⟩]⟩ := by
    decide +kernel
  have hmatch : match? ⟨.unlimited, .empty, .default⟩
      ⟨"set {a} to {b}".toList, [.literal "set ".toList, .slot ⟨"{a}".toList, 4, none⟩,
        .literal " to ".toList, .slot ⟨"{b}".toList, 11, none⟩]⟩ "Given set 1 to 'x'".toList =
      some [.ofToken "1".toList, ⟨"x".toList, .string⟩] := by
    decide +kernel
  obtain ⟨values, -, hlength, -, hextracts, hfilling, -⟩ := exists_filling_of_match? hparsed hmatch
  exact ⟨_, _, hparsed, hmatch, values, hlength, hextracts, hfilling⟩

theorem IsOpening.length_eq {keywords : List Text} {t : Text} (h : IsOpening keywords t) :
    t.length = 0 ∨ ∃ keyword ∈ keywords, t.length = keyword.length + 1 := by
  rcases h with rfl | ⟨keyword, hkeyword, front, blank, rfl, hsame, -⟩
  · exact Or.inl rfl
  · refine Or.inr ⟨keyword, hkeyword, ?_⟩
    rw [List.length_append, hsame.length_eq, List.length_singleton]

/-- A call that matches in another way than its raw arguments say: braces may hold whatever is in
brackets behind them, up to the last place where the search can go on. -/
theorem exists_match?_not_fills :
    ∃ template arguments values, ofText? .unlimited "{a} {b}".toList = .ok template
      ∧ match? ⟨.unlimited, .empty, .default⟩ template "{1} [\x7d 3]".toList = some arguments
      ∧ rawArguments? (Setting.stripped ⟨.unlimited, .empty, .default⟩ template)
        "{1} [\x7d 3]".toList
          = some (values.map Argument.ofToken)
      ∧ ∀ opening body, "{1} [\x7d 3]".toList = opening ++ body →
          IsOpening Bindings.empty.keywords opening →
          ¬Fills sameFolded (Setting.stripped ⟨.unlimited, .empty, .default⟩ template).pieces
            values body := by
  refine ⟨⟨"{a} {b}".toList, [.slot ⟨"{a}".toList, 0, none⟩, .literal [' '],
    .slot ⟨"{b}".toList, 4, none⟩]⟩, [.ofToken "{1} [\x7d".toList, .ofToken ['3']],
    ["{1} [\x7d".toList, ['3']], by decide +kernel, by decide +kernel, by decide +kernel, ?_⟩
  intro opening body heq hopening hfills
  have hbody : body.length = 8 := length_of_fills hfills
  have hlength := congrArg List.length heq
  have hkeywords : ∀ keyword ∈ Bindings.empty.keywords, 0 < keyword.length := by decide +kernel
  rw [List.length_append, hbody] at hlength
  -- one character is left over, too many for no opening and too few for a keyword and a blank
  have hone : opening.length = 1 := Nat.add_right_cancel hlength.symm
  rcases hopening.length_eq with hnone | ⟨keyword, hkeyword, hopened⟩
  · omega
  · have hlong := hkeywords keyword hkeyword
    omega

/-! ## From a filling to a match

Here the call is written from the template, with any tokens for its slots. It fits by its making;
what has to be shown is what the walk does with it. -/

/-- **A call that is written out from a template matches exactly when the walk gets to its end**,
given that no index is too high. The walk finds the tokens written exactly when each is the longest
at its place. -/
theorem exists_match?_iff_of_fills {definition : Text} {tokens : List Text}
    (hparsed : ofText? setting.engine definition = .ok template)
    (hbelow : ∀ k ∈ template.slots.filterMap Slot.index, k < template.slots.length)
    (hfills : Fills (· == ·) (setting.stripped template).pieces tokens call) :
    ((∃ arguments, match? setting template call = some arguments
          ∧ arguments.length = template.slots.length) ↔
        setting.limit.permits call = true ∧ setting.limit.permits template.source = true
          ∧ setting.compiles template = true
          ∧ ∃ raw, rawArguments? (setting.stripped template) call = some raw)
      ∧ (rawArguments? (setting.stripped template) call = some (tokens.map Argument.ofToken) ↔
          FillsLongest (setting.stripped template).pieces tokens call) := by
  have hfolded : Fills sameFolded (setting.stripped template).pieces tokens call :=
    hfills.mono (fun _ _ _ hliteral => hliteral.folded) fun _ _ _ htoken => htoken
  -- the filling compares exactly, so it fits with no opening in front
  have hfits : fits setting.properties.keywords (setting.stripped template).pieces call = true :=
    fits_iff.mpr ⟨[], call, tokens, rfl, isOpening_nil _, hfolded⟩
  have hslots := setting.slots_stripped template
  constructor
  · rw [← hslots] at hbelow
    constructor
    · rintro ⟨arguments, hmatch, -⟩
      obtain ⟨hcall, hsource, hcompiles, -, harguments⟩ := match?_eq_some_iff.mp hmatch
      exact ⟨hcall, hsource, hcompiles, (exists_arguments?_iff hbelow).mp ⟨arguments, harguments⟩⟩
    · rintro ⟨hcall, hsource, hcompiles, hraw⟩
      obtain ⟨arguments, harguments⟩ := (exists_arguments?_iff hbelow).mpr hraw
      refine ⟨arguments, match?_eq_some_iff.mpr ⟨hcall, hsource, hcompiles, hfits, harguments⟩, ?_⟩
      rw [length_of_arguments? harguments, hslots]
  · have halternating := alternating_stripped hparsed setting
    -- different tokens are different raw arguments
    have hinjective : Function.Injective Argument.ofToken := fun s t h => congrArg Argument.value h
    rw [rawArguments?_eq_some_iff, fillsLongest_iff, ← extracts_and_fills_iff halternating]
    constructor
    · rintro ⟨values, heq, hextracts⟩
      obtain rfl := hinjective.list_map heq
      exact ⟨hfills, hextracts, hfolded⟩
    · rintro ⟨-, hextracts, -⟩
      exact ⟨tokens, rfl, hextracts⟩

/-- A call with a string in quotes. -/
theorem exists_match?_iff_of_fills_quoted :
    ∃ template tokens, ofText? .unlimited "open {page}".toList = .ok template
      ∧ Fills (· == ·) (Setting.stripped ⟨.unlimited, .empty, .default⟩ template).pieces tokens
          "open 'home'".toList
      ∧ FillsLongest (Setting.stripped ⟨.unlimited, .empty, .default⟩ template).pieces tokens
          "open 'home'".toList
      ∧ ∃ arguments, match? ⟨.unlimited, .empty, .default⟩ template "open 'home'".toList =
        some arguments
          ∧ arguments.length = template.slots.length := by
  have hparsed : ofText? .unlimited "open {page}".toList =
      .ok ⟨"open {page}".toList, [.literal "open ".toList, .slot ⟨"{page}".toList, 5, none⟩]⟩ := by
    decide +kernel
  have hstripped : Setting.stripped ⟨.unlimited, .empty, .default⟩
      ⟨"open {page}".toList, [.literal "open ".toList, .slot ⟨"{page}".toList, 5, none⟩]⟩ =
      ⟨"open {page}".toList, [.literal "open ".toList, .slot ⟨"{page}".toList, 5, none⟩]⟩ := by
    decide +kernel
  have hfills : Fills (· == ·)
      (Setting.stripped ⟨.unlimited, .empty, .default⟩ ⟨"open {page}".toList,
        [.literal "open ".toList, .slot ⟨"{page}".toList, 5, none⟩]⟩).pieces ["'home'".toList]
      "open 'home'".toList := by
    rw [hstripped]
    exact division_literal_iff.mpr
      ⟨"open ".toList, "'home'".toList, rfl, sameBy_refl beq_self_eq_true _,
      division_slot_iff.mpr ⟨"'home'".toList, [], [], rfl, rfl, by decide, .nil⟩⟩
  have hraw : rawArguments? (Setting.stripped ⟨.unlimited, .empty, .default⟩ ⟨"open {page}".toList,
      [.literal "open ".toList, .slot ⟨"{page}".toList, 5, none⟩]⟩) "open 'home'".toList =
      some (["'home'".toList].map Argument.ofToken) := by
    decide +kernel
  obtain ⟨hmatches, hlongest⟩ := exists_match?_iff_of_fills hparsed (by decide) hfills
  exact ⟨_, _, hparsed, hfills, hlongest.mp hraw,
    hmatches.mpr ⟨by decide, by decide, by decide +kernel, _, hraw⟩⟩

/-- Two lists side by side are one list to the search, which leaves nothing for the second slot. The
call fills the template all the same, with the one list for one slot and the other for the other. -/
theorem exists_fills_not_match? :
    ∃ template tokens, ofText? .unlimited "{a}{b}".toList = .ok template
      ∧ (∀ k ∈ template.slots.filterMap Slot.index, k < template.slots.length)
      ∧ Fills (· == ·) (Setting.stripped ⟨.unlimited, .empty, .default⟩ template).pieces tokens
          "[1][2]".toList
      ∧ SizeLimit.default.permits "[1][2]".toList = true
      ∧ SizeLimit.default.permits template.source = true
      ∧ match? ⟨.unlimited, .empty, .default⟩ template "[1][2]".toList = none := by
  refine ⟨⟨"{a}{b}".toList, [.slot ⟨"{a}".toList, 0, none⟩, .slot ⟨"{b}".toList, 3, none⟩]⟩,
    ["[1]".toList, "[2]".toList], by decide +kernel, by decide, ?_, by decide, by decide,
    by decide +kernel⟩
  exact division_slot_iff.mpr ⟨"[1]".toList, "[2]".toList, ["[2]".toList], rfl, rfl, by decide,
    division_slot_iff.mpr ⟨"[2]".toList, [], [], rfl, rfl, by decide, .nil⟩⟩

end StepPhrase.Call
