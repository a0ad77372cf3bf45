import StepPhrase.Proofs.Call.Matching
import StepPhrase.Proofs.Keyword.Leading
import StepPhrase.Proofs.Template.Compiled

/-!
# Matching compiled templates

A call is matched against a compiled template by its parts: the patterns in a row say whether the
call fits, the segments are walked along for the values, and the slots say where the values go.
Whatever goes wrong has a reason, the last of which is that there are not as many arguments as
slots.

Each part is compared with the function that matching without the parts uses: the ways of the
patterns with the fillings of the pieces, a captured value with a token in its frame, a fold over
moves with a fold over values. Since compiled templates are what would be made of their pieces, the
comparison carries over to all of them.

* **`fitsPatterns_bodyOf`**, **`takeValues?_between`** — the parts of a template say the same as the
  template.
* **`length_of_arguments?`** — if the parts are in step, each slot has an argument.
* **`Template.Compiled.reachable_spec`** — so the last reason is never given, and matching by the
  parts is matching.
-/

namespace StepPhrase

open Template Text

namespace Call

variable {engine : Engine}

/-! ## Definitions -/

/-- What is left of a call behind any keyword and a blank, and the whole call. The expression of a
call has the keyword as an optional part, which is tried first and without which the whole call is
left. -/
def behindOpenings (keywords : List Text) (t : Text) : List Text :=
  ((Pattern.choice keywords).ways t).flatMap (Pattern.behindOne Unicode.isWhiteSpace) ++ [t]

/-- Whether a call consists of these patterns, with or without a keyword in front. -/
def fitsPatterns (keywords : List Text) (body : List Pattern) (t : Text) : Bool :=
  (behindOpenings keywords t).any fun rest => (Pattern.waysAll body rest).contains []

/-- The value that a segment finds, and what is behind it. The group of the segment captures the
value, and what the pattern has behind the group is not taken. -/
def takeValue? (s : Segment) (t : Text) : Option (Text × Text) :=
  match skip? s.lead t with
  | none => none
  | some t =>
    match skip? s.boundary t with
    | none => none
    | some _ => (Pattern.capture? s.group s.behind t).map (·.2)

/-- The values that some segments find. -/
def takeValues? : List Segment → Text → Option (List Text)
  | [], _ => some []
  | s :: segments, t =>
    match takeValue? s t with
    | none => none
    | some (value, rest) => (takeValues? segments rest).map (value :: ·)

/-- Sends the value at a place, which has to be there, to a target. -/
def placeAt? {α : Type} (values ordered : List α) (move : Nat × Nat) : Option (List α) :=
  values[move.2]?.bind fun value => send? ordered (move.1, value)

/-- Sends the value at the place of each slot to the position that the slot asks for. The values are
read from where they were found, not from where they have been sent to. -/
def place? {α : Type} (indices : List (Option Nat)) (values : List α) : Option (List α) :=
  (targets indices).zipIdx.foldlM (placeAt? values) values

/-- Why a call does not match. The reasons are in the order in which they are looked for, so a call
has at most one. -/
inductive Mismatch where
  /-- The call or the definition is too long. -/
  | tooLong
  /-- The engine does not compile the pattern of the whole call. -/
  | notCompiled
  /-- The call does not fit. -/
  | structural
  /-- Some argument is not found, or has no position to go to. -/
  | extraction
  /-- The number of the arguments is not that of the slots. -/
  | count (expected actual : Nat)
  deriving DecidableEq

end Call

namespace Template.Compiled

open Call

/-- The arguments of a call, in the positions that the slots ask for. -/
def arguments? (c : Compiled) (t : Text) : Option (List Argument) :=
  (takeValues? c.segments t).bind fun values =>
    place? (c.slots.map Slot.index) ((values.map Argument.ofToken).map Argument.unquoted)

/-- A template without the keyword that it begins with, or as it is. -/
def withoutKeyword (engine : Engine) (keywords : List Text) (c : Compiled) : Compiled :=
  (c.strip? engine keywords).getD c

/-- The arguments of a call that matches, or the reason why it does not. It goes by the parts of a
template that was made ready once, and never reads the definition again. -/
def matching (setting : Setting) (c : Compiled) (t : Text) : Except Mismatch (List Argument) :=
  let keywords := setting.properties.keywords
  let stripped := c.withoutKeyword setting.engine keywords
  if !(setting.limit.permits t && setting.limit.permits c.source) then .error .tooLong
  else if !setting.engine.compiles (.call keywords stripped.body) then .error .notCompiled
  else if !fitsPatterns keywords stripped.body t then .error .structural
  else match stripped.arguments? t with
    | none => .error .extraction
    | some arguments =>
      if arguments.length ≠ stripped.slots.length then .error
        (.count stripped.slots.length arguments.length)
      else .ok arguments

end Template.Compiled

namespace Call

/-! ## Patterns in a row

The ways in which the patterns match leave rests of the call. One of the rests is empty exactly if
the pieces can be filled so that they make up the call. -/

section Fitting

variable {keywords : List Text} {t rest : Text}

theorem mem_behindOpenings_iff :
    rest ∈ behindOpenings keywords t ↔
      ∃ opening, t = opening ++ rest ∧ IsOpening keywords opening := by
  rw [behindOpenings, Pattern.ways_choice, List.mem_append, List.mem_singleton, List.mem_flatMap]
  -- a way to match a keyword and a blank is a keyword and a blank in front of the rest
  simp only [List.mem_filterMap, dropLiteral?_eq_some_iff, Pattern.mem_behindOne_iff]
  constructor
  · rintro (⟨_, ⟨keyword, hkeyword, front, rfl, hsame⟩, blank, rfl, hblank⟩ | rfl)
    · exact ⟨front ++ [blank], by simp, .inr ⟨keyword, hkeyword, front, blank, rfl, hsame, hblank⟩⟩
    · exact ⟨[], rfl, isOpening_nil keywords⟩
  · rintro ⟨_, rfl, rfl | ⟨keyword, hkeyword, front, blank, rfl, hsame, hblank⟩⟩
    · exact .inr rfl
    · exact .inl ⟨blank :: rest, ⟨keyword, hkeyword, front, by simp, hsame⟩, blank, rfl, hblank⟩

theorem mem_waysAll_patterns_iff {piece : Piece} :
    rest ∈ Pattern.waysAll piece.patterns t ↔ ∃ v, t = v ++ rest ∧ FillsPiece piece v := by
  cases piece with
  | literal literal =>
    rw [Piece.patterns, Pattern.waysAll_literal, Option.mem_toList, dropLiteral?_eq_some_iff]
    rfl
  | slot s =>
    have htoken : Pattern.waysAll (Piece.slot s).patterns t = Pattern.ways Shape.token t :=
      List.flatMap_singleton' _
    rw [htoken, Pattern.mem_ways_iff Pattern.isCaseless_token]
    rfl

/-- The patterns of the pieces match what the pieces are filled with, by induction on the pieces: a
way through the first one leaves a rest for the others. -/
theorem nil_mem_waysAll_bodyOf_iff {pieces : List Piece} :
    [] ∈ Pattern.waysAll (bodyOf pieces) t ↔ ∃ tokens, Fills sameFolded pieces tokens t := by
  induction pieces generalizing t with
  | nil =>
    simp only [bodyOf, List.flatMap_nil, Pattern.waysAll, List.mem_singleton, Fills,
      division_nil_iff, exists_eq_left]
    exact eq_comm
  | cons piece pieces ih =>
    have happend : bodyOf (piece :: pieces) = piece.patterns ++ bodyOf pieces := rfl
    simp only [happend, Pattern.waysAll_append, List.mem_flatMap, mem_waysAll_patterns_iff, ih,
      fills_cons_iff]
    constructor
    · rintro ⟨rest, ⟨v, rfl, hv⟩, hrest⟩
      exact ⟨v, rest, rfl, hv, hrest⟩
    · rintro ⟨v, rest, rfl, hv, hrest⟩
      exact ⟨rest, ⟨v, rfl, hv⟩, hrest⟩

/-- **A call consists of the patterns of the pieces when it fits the pieces**, with or without a
keyword in front of it. -/
theorem fitsPatterns_bodyOf (keywords : List Text) (pieces : List Piece) (t : Text) :
    fitsPatterns keywords (bodyOf pieces) t = fits keywords pieces t := by
  rw [Bool.eq_iff_iff, fits_iff, fitsPatterns, List.any_eq_true]
  simp only [mem_behindOpenings_iff, List.contains_iff_mem, nil_mem_waysAll_bodyOf_iff]
  constructor
  · rintro ⟨body, ⟨opening, rfl, hopening⟩, tokens, hfills⟩
    exact ⟨opening, body, tokens, rfl, hopening, hfills⟩
  · rintro ⟨opening, body, tokens, rfl, hopening, hfills⟩
    exact ⟨body, ⟨opening, rfl, hopening⟩, tokens, hfills⟩

end Fitting

/-! ## Walking along the segments

A segment has a pattern for its value and for the literal behind it. What a search captures with it
is the first token in front of that literal, as `capture?_token` says. -/

theorem takeValue?_between (frame : Frame) (t : Text) :
    takeValue? (.between frame.lead frame.boundary) t = takeToken? frame t := by
  have hcapture : (fun t => (Pattern.capture? Shape.token (frame.boundary.map .char) t).map (·.2)) =
      firstToken? (beginsWith sameFolded frame.boundary) :=
    funext (Pattern.map_capture?_token frame.boundary)
  rw [takeToken?, ← hcapture]
  rfl

theorem takeValues?_between (frames : List Frame) (t : Text) :
    takeValues? (frames.map fun frame => .between frame.lead frame.boundary) t =
      takeTokens? frames t := by
  induction frames generalizing t with
  | nil => rfl
  | cons frame frames ih =>
    rw [List.map_cons, takeValues?, takeTokens?, takeValue?_between]
    cases takeToken? frame t with
    | none => rfl
    | some found => exact congrArg (Option.map (found.1 :: ·)) (ih found.2)

theorem length_of_takeValues? {segments : List Segment} {t : Text} {values : List Text}
    (h : takeValues? segments t = some values) : values.length = segments.length := by
  induction segments generalizing t values with
  | nil => rw [← Option.some.inj h]; rfl
  | cons s segments ih =>
    rw [takeValues?] at h
    split at h
    · cases h
    · obtain ⟨others, hothers, rfl⟩ := Option.map_eq_some_iff.mp h
      rw [List.length_cons, ih hothers, List.length_cons]

/-! ## Placing the values

The places of the values are numbered and each value is looked up at its place, instead of being
taken along. As long as there is a value for each slot, no look-up fails. -/

section Placing

variable {α : Type}

theorem length_of_foldlM {β : Type} {step : List α → β → Option (List α)}
    (hstep : ∀ l b l', step l b = some l' → l'.length = l.length) {bs : List β} {l l' : List α}
    (h : bs.foldlM step l = some l') : l'.length = l.length := by
  induction bs generalizing l with
  | nil => rw [← Option.some.inj h]
  | cons b bs ih =>
    rw [List.foldlM_cons] at h
    obtain ⟨next, hnext, hrest⟩ := Option.bind_eq_some_iff.mp h
    rw [ih hrest, hstep _ _ _ hnext]

theorem length_of_place? {indices : List (Option Nat)} {values ordered : List α}
    (h : place? indices values = some ordered) : ordered.length = values.length := by
  refine length_of_foldlM (fun l move l' hstep => ?_) h
  obtain ⟨value, -, hsend⟩ := Option.bind_eq_some_iff.mp hstep
  rw [send?] at hsend
  split at hsend
  · rw [← Option.some.inj hsend, List.length_set]
  · cases hsend

/-- The values behind some others are sent from their places as they are sent one after another. The
induction is on the targets, and `before` are the values that have been sent already. -/
theorem foldlM_placeAt?_eq (before values : List α) (ts : List Nat) (l : List α)
    (hlength : ts.length = values.length) :
    (ts.zipIdx before.length).foldlM (placeAt? (before ++ values)) l =
      (ts.zip values).foldlM send? l := by
  induction ts generalizing before values l with
  | nil => rfl
  | cons target ts ih =>
    obtain ⟨value, values, rfl⟩ := List.exists_cons_of_length_eq_add_one hlength.symm
    have hvalue : (before ++ value :: values)[before.length]? = some value := by simp
    -- the value goes over to those in front, so that each place stays the place among all of them
    have hrest := fun l => ih (before ++ [value]) values l (Nat.succ.inj hlength)
    rw [List.append_assoc, List.singleton_append, List.length_append,
      List.length_singleton] at hrest
    rw [List.zipIdx_cons, List.zip_cons_cons, List.foldlM_cons, List.foldlM_cons, placeAt?, hvalue,
      Option.bind_some]
    exact congrArg _ (funext hrest)

theorem place?_eq_arrange? {indices : List (Option Nat)} {values : List α}
    (hlength : indices.length = values.length) :
    place? indices values = arrange? indices values := by
  rw [arrange?_eq_foldlM, sent]
  exact foldlM_placeAt?_eq [] values (targets indices) values
    ((length_targets indices).trans hlength)

end Placing

end Call

/-! ## Matching

What goes wrong is told in the order in which it is checked. The count is checked last, and by then
there is an argument for each slot. -/

namespace Template.Compiled

open Call

variable {c : Compiled} {template : Template} {setting : Setting} {t : Text}

/-- **If the parts are in step, each slot has an argument.** -/
theorem IsConsistent.length_of_arguments? (h : c.IsConsistent) {arguments : List Argument}
    (harguments : c.arguments? t = some arguments) : arguments.length = c.slots.length := by
  obtain ⟨values, hvalues, hplace⟩ := Option.bind_eq_some_iff.mp harguments
  rw [length_of_place? hplace, List.length_map, List.length_map, length_of_takeValues? hvalues,
    h.length_segments]

/-- The parts of a template find the arguments that the template finds: the values are the same, and
they are sent to the same places. -/
theorem arguments?_ofTemplate (template : Template) (t : Text) :
    (ofTemplate template).arguments? t = Call.arguments? template t := by
  -- the segments are the frames of the template, so the walk finds the same tokens
  have hvalues : takeValues? (ofTemplate template).segments t = takeTokens? template.frames t :=
    (congrArg (takeValues? · t) (segmentsOf_eq template.pieces)).trans (takeValues?_between _ t)
  rw [arguments?, Call.arguments?, rawArguments?, hvalues, Option.bind_map]
  cases htokens : takeTokens? template.frames t with
  | none => rfl
  | some tokens =>
    have hraw : rawArguments? template t = some (tokens.map Argument.ofToken) := by
      rw [rawArguments?, htokens]; rfl
    exact place?_eq_arrange? (length_indices hraw)

theorem withoutKeyword_ofTemplate (halternating : Alternating template.pieces)
    (keywords : List Text) :
    (ofTemplate template).withoutKeyword engine keywords =
      ofTemplate (template.withoutKeyword engine keywords) := by
  rw [withoutKeyword]
  rcases strip?_ofTemplate template halternating keywords with ⟨hnone, hwithout⟩ | hsome
  · rw [hnone, hwithout, Option.getD_none]
  · rw [hsome, Option.getD_some]

theorem Reachable.withoutKeyword (h : Reachable c) (engine : Engine) (keywords : List Text) :
    Reachable (c.withoutKeyword engine keywords) := by
  rw [Compiled.withoutKeyword]
  cases hstrip : c.strip? engine keywords with
  | none => exact h
  | some stripped => exact h.strip hstrip

theorem ite_error_eq_ok_iff {ε α : Type} {p : Prop} [Decidable p] {e : ε}
    {result : Except ε α} {a : α} :
    (if p then .error e else result) = .ok a ↔ ¬p ∧ result = .ok a := by
  by_cases hp : p <;> simp [hp]

theorem matching_eq_ok_iff {arguments : List Argument} :
    c.matching setting t = .ok arguments ↔
      setting.limit.permits t = true ∧ setting.limit.permits c.source = true
        ∧ setting.engine.compiles
            (.call setting.properties.keywords
              (c.withoutKeyword setting.engine setting.properties.keywords).body) = true
        ∧ fitsPatterns setting.properties.keywords
          (c.withoutKeyword setting.engine setting.properties.keywords).body t = true
        ∧ (c.withoutKeyword setting.engine setting.properties.keywords).arguments? t =
          some arguments
        ∧ arguments.length =
          (c.withoutKeyword setting.engine setting.properties.keywords).slots.length := by
  rw [matching, ite_error_eq_ok_iff, ite_error_eq_ok_iff, ite_error_eq_ok_iff, Bool.not_eq_true',
    Bool.not_eq_false, Bool.and_eq_true, Bool.not_eq_true', Bool.not_eq_false, Bool.not_eq_true',
    Bool.not_eq_false, and_assoc]
  -- the checks go by the same names on both sides, up to the arguments
  refine and_congr_right' (and_congr_right' (and_congr_right' (and_congr_right' ?_)))
  cases (c.withoutKeyword setting.engine setting.properties.keywords).arguments? t with
  | none => simp
  | some found =>
    simp only [ite_error_eq_ok_iff, not_not, Except.ok.injEq, Option.some.injEq]
    constructor
    · rintro ⟨hlength, rfl⟩
      exact ⟨rfl, hlength⟩
    · rintro ⟨rfl, hlength⟩
      exact ⟨hlength, rfl⟩

/-- **The arguments are never too few or too many.** There are other reasons for a mismatch, but
with the parts in step this one does not come up, whatever the setting and the call. -/
theorem Reachable.matching_ne_count (h : Reachable c) (setting : Setting) (t : Text)
    (expected actual : Nat) :
    c.matching setting t ≠ .error (.count expected actual) := by
  have hconsistent := (h.withoutKeyword setting.engine setting.properties.keywords).isConsistent
  intro hcount
  rw [matching] at hcount
  split at hcount
  · cases hcount
  · split at hcount
    · cases hcount
    · split at hcount
      · cases hcount
      · split at hcount
        · cases hcount
        · next arguments harguments =>
          rw [if_neg (not_not_intro (hconsistent.length_of_arguments? harguments))] at hcount
          cases hcount

/-- Matching by the parts is matching: each check says the same, and that of the count says nothing.
-/
theorem matching_ofTemplate_eq_ok_iff (template : Template)
    (halternating : Alternating template.pieces)
    (setting : Setting) (t : Text) (arguments : List Argument) :
    (ofTemplate template).matching setting t = .ok arguments ↔ match? setting template t =
      some arguments := by
  rw [matching_eq_ok_iff, match?_eq_some_iff, withoutKeyword_ofTemplate halternating]
  have hfits := fitsPatterns_bodyOf setting.properties.keywords (setting.stripped template).pieces t
  rw [arguments?_ofTemplate]
  simp only [ofTemplate, hfits]
  refine and_congr_right' (and_congr_right' (and_congr_right' (and_congr_right' ?_)))
  exact and_iff_left_of_imp Call.length_of_arguments?

/-- **The parts of a compiled template stay in step.** Whatever comes out of a definition, and of
that by taking keywords off, has one segment for each slot, in their order. The lead and the
boundary of a segment are the literals directly in front of its slot and behind it, and its pattern
is a token in front of the boundary; the patterns in a row are those of the pieces, written one
after the other. So each slot has an argument if there are any, it never comes to a mismatch of
their numbers, and matching by the parts is matching. -/
theorem reachable_spec (h : Reachable c) :
    c.IsConsistent
      ∧ Pattern.writeAll c.body = c.tokens.flatMap Piece.written
      ∧ (∀ s ∈ c.segments, s.written =
          "(".toList ++ Pattern.group Shape.token.source ++ ")".toList ++ Pattern.escape s.boundary)
      ∧ (∀ t arguments, c.arguments? t = some arguments → arguments.length = c.slots.length)
      ∧ (∀ t, c.arguments? t = Call.arguments? c.template t)
      ∧ ∀ setting t, (∀ expected actual, c.matching setting t ≠ .error (.count expected actual))
          ∧ ∀ arguments, c.matching setting t = .ok arguments ↔ match? setting c.template t =
            some arguments := by
  -- the parts are those that would be made of the pieces, so all is reduced to `ofTemplate`
  obtain ⟨heq, halternating⟩ := h.eq_ofTemplate
  refine ⟨h.isConsistent, ?_, ?_, fun t arguments => h.isConsistent.length_of_arguments?, ?_,
    fun setting t =>
    ⟨h.matching_ne_count setting t, ?_⟩⟩
  · rw [h.isConsistent.body, writeAll_bodyOf]
  · rw [heq]
    exact fun s => written_of_mem_segmentsOf
  · intro t
    exact (congrArg (·.arguments? t) heq).trans (arguments?_ofTemplate c.template t)
  · intro arguments
    have hmatching := matching_ofTemplate_eq_ok_iff c.template halternating setting t arguments
    rwa [← heq] at hmatching

/-- A first literal that is nothing but a keyword goes away, and the first slot has nothing in front
of it any more. -/
theorem reachable_spec_keyword_only :
    ∃ c stripped : Compiled, ofText? .unlimited "Given {a} to {b}".toList = .ok c
      ∧ c.segments = [.between "Given ".toList " to ".toList, .between " to ".toList []]
      ∧ c.strip? .unlimited Bindings.empty.keywords = some stripped
      ∧ stripped.tokens =
      [.slot ⟨"{a}".toList, 6, none⟩, .literal " to ".toList, .slot ⟨"{b}".toList, 13, none⟩]
      ∧ stripped.segments = [.between [] " to ".toList, .between " to ".toList []]
      ∧ stripped.IsConsistent
      ∧ c.matching ⟨.unlimited, .empty, .default⟩ "When 1 TO 'x'".toList =
        .ok [.ofToken "1".toList, ⟨"x".toList, .string⟩] := by
  have hparsed : ofText? .unlimited "Given {a} to {b}".toList =
      .ok (ofTemplate ⟨"Given {a} to {b}".toList,
      [.literal "Given ".toList, .slot ⟨"{a}".toList, 6, none⟩,
        .literal " to ".toList, .slot ⟨"{b}".toList, 13, none⟩]⟩) := by
    decide +kernel
  have hstrip : (ofTemplate
    ⟨"Given {a} to {b}".toList, [.literal "Given ".toList, .slot ⟨"{a}".toList, 6, none⟩,
        .literal " to ".toList, .slot ⟨"{b}".toList, 13, none⟩]⟩).strip? .unlimited
          Bindings.empty.keywords =
      some (ofTemplate ⟨"Given {a} to {b}".toList, [.slot ⟨"{a}".toList, 6, none⟩,
        .literal " to ".toList, .slot ⟨"{b}".toList, 13, none⟩]⟩) := by
    decide +kernel
  obtain ⟨-, -, -, -, -, hmatching⟩ := reachable_spec (.ofText hparsed)
  obtain ⟨hconsistent, -⟩ := reachable_spec (.strip (.ofText hparsed) hstrip)
  refine ⟨_, _, hparsed, by decide, hstrip, rfl, by decide, hconsistent, ?_⟩
  exact ((hmatching ⟨.unlimited, .empty, .default⟩ "When 1 TO 'x'".toList).2 _).mpr
    (by decide +kernel)

end Template.Compiled

end StepPhrase
