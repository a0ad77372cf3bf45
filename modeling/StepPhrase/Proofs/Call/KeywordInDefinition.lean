import StepPhrase.Proofs.Call.Gist
import StepPhrase.Proofs.Call.Opening
import StepPhrase.Proofs.Keyword.Stripping
import StepPhrase.Proofs.Template.Reading

/-!
# Definitions that begin with a keyword

A definition may begin with a keyword, which is taken off it together with all the blanks behind. A
call may begin with one too, with a single blank behind it.

What is taken off a definition is put back into the expression for its calls as a choice of all
keywords with one blank. So a definition gains calls, for it matches with any of the keywords, and
loses those that have as many blanks as it has, if these are more than one. Which keyword is taken
off is decided by the list and not by the definition: the first entry that a blank follows.

* **`exists_body_of_fits`** — a call that has the keyword of the definition and its blanks,
  character by character, is also understood with one blank in their place.
* **`fits_stripped_of_fits`** — so nothing is lost if there is one blank; if there are more, a
  definition without slots does not even match its own text.
* **`match?_eq_of_moved`** — where in the definition its slots stand makes no difference to a call.
* **`match?_keyword_definition`** — a keyword in front of a definition makes no difference either,
  unless another entry of the list comes first.
-/

namespace StepPhrase.Call

open Template Text
open Piece (leadingLiteral)

variable {engine : Engine} {keywords : List Text} {template : Template} {call : Text}

/-! ## Templates without slots

Literals are never empty and never side by side, so without a slot there is at most one piece. -/

/-- Pieces without a slot are their first literal, so a text fills them if it is that literal up to
what is compared. -/
theorem fills_iff_of_slotless {same : Char → Char → Bool} {pieces : List Piece}
    (halternating : Alternating pieces) (hslots : slotsOf pieces = []) :
    (∃ tokens, Fills same pieces tokens call) ↔ SameBy same (leadingLiteral pieces) call := by
  cases pieces with
  | nil =>
    simp only [Fills, division_nil_iff]
    simp
  | cons piece pieces =>
    cases piece with
    | slot s => cases hslots
    | literal literal =>
      have hempty : pieces = [] := by
        cases pieces with
        | nil => rfl
        | cons piece pieces =>
          cases piece with
          | slot s => cases hslots
          | literal other => exact absurd halternating.2.1 halternating.2.2.1
      simp only [hempty, Fills, division_literal_iff, division_nil_iff,
        Piece.leadingLiteral_literal]
      constructor
      · rintro ⟨tokens, front, rest, rfl, hsame, -, rfl⟩
        rwa [List.append_nil]
      · intro hsame
        exact ⟨[], call, [], (List.append_nil call).symm, hsame, rfl, rfl⟩

theorem fits_iff_of_slotless {pieces : List Piece} (halternating : Alternating pieces)
    (hslots : slotsOf pieces = []) :
    fits keywords pieces call = true ↔
      ∃ opening body, call = opening ++ body ∧ IsOpening keywords opening
        ∧ SameBy sameFolded (leadingLiteral pieces) body := by
  rw [fits_iff]
  constructor
  · rintro ⟨opening, body, tokens, heq, hopening, hfills⟩
    exact ⟨opening, body, heq, hopening,
      (fills_iff_of_slotless halternating hslots).mp ⟨tokens, hfills⟩⟩
  · rintro ⟨opening, body, heq, hopening, hsame⟩
    obtain ⟨tokens, hfills⟩ := (fills_iff_of_slotless halternating hslots).mpr hsame
    exact ⟨opening, body, tokens, heq, hopening, hfills⟩

/-! ## Taking the keyword off loses no call but for its blanks

The first literal of the template is the keyword, its blanks and a rest. A call that fits the whole
template has all three, and what is left of the template fits the call without the first two. -/

theorem eq_of_sameBy_of_isWhiteSpace {gap t : Text} (h : SameBy sameFolded gap t)
    (hgap : ∀ c ∈ gap, Unicode.isWhiteSpace c = true) : t = gap := by
  induction h with
  | nil => rfl
  | cons hc _ ih =>
    obtain ⟨hblank, hblanks⟩ := List.forall_mem_cons.mp hgap
    rw [eq_of_sameFolded_of_isWhiteSpace hblank hc, ih hblanks]

/-- **A call that has the keyword of the definition has its blanks as well.** What is behind them
fits what is left of the template, and with the keyword and any one blank in front it still does. -/
theorem exists_body_of_fits (hgap : template.gap engine keywords ≠ [])
    (h : fits [] template.pieces call = true) :
    ∃ front body, call = front ++ (template.gap engine keywords ++ body)
      ∧ fits keywords (template.withoutKeyword engine keywords).pieces body = true
      ∧ ∀ blank, Unicode.isWhiteSpace blank = true →
          fits keywords (template.withoutKeyword engine keywords).pieces
            (front ++ blank :: body) = true := by
  rcases withoutKeyword_eq_or_isLed engine keywords template with ⟨hnil, -⟩ |
    ⟨keyword, hkeyword, first, front, rest, pieces, hpieces, hled, hstripped⟩
  · exact absurd hnil hgap
  · rw [hpieces, fits_nil_iff, fills_cons_iff] at h
    obtain ⟨v, behind, rfl, hfirst, hbehind⟩ := h
    -- the first literal stands in the call part by part
    have hparts : SameBy sameFolded (front ++ (template.gap engine keywords ++ rest)) v :=
      hled.eq_append ▸ hfirst
    obtain ⟨front', w, rfl, hfront, hw⟩ := sameBy_append_iff.mp hparts
    obtain ⟨blanks, rest', rfl, hblanks, hrest⟩ := sameBy_append_iff.mp hw
    obtain rfl := eq_of_sameBy_of_isWhiteSpace hblanks isWhiteSpace_of_mem_gap
    have hbody : fits [] (template.withoutKeyword engine keywords).pieces
        (rest' ++ behind) = true := by
      -- a rest that is empty is no piece, so the literal is gone altogether
      rw [hstripped, fits_nil_iff]
      by_cases hempty : rest = []
      · rw [hempty, sameBy_nil_left_iff] at hrest
        rwa [if_pos hempty, hrest, List.nil_append]
      · rw [if_neg hempty, fills_cons_iff]
        exact ⟨rest', behind, rfl, hrest, hbehind⟩
    have hwhole : fits keywords (template.withoutKeyword engine keywords).pieces
      ([] ++ (rest' ++ behind)) = true :=
      fits_append (isOpening_nil keywords) hbody
    -- the keyword as the call has it and any one blank are an opening
    refine ⟨front', rest' ++ behind, by simp only [List.append_assoc], hwhole,
      fun blank hblank => ?_⟩
    have hopening : IsOpening keywords (front' ++ [blank]) :=
      Or.inr ⟨keyword, hkeyword, front', blank, rfl, hled.sameBy.trans_folded hfront, hblank⟩
    have hlong := fits_append hopening hbody
    rwa [List.append_assoc, List.singleton_append] at hlong

/-- With one blank at most, what the template has lost is what an opening puts back, so the text of
the definition still fits. -/
theorem fits_withoutKeyword (hgap : (template.gap engine keywords).length ≤ 1)
    (h : fits [] template.pieces call = true) :
    fits keywords (template.withoutKeyword engine keywords).pieces call = true := by
  by_cases hnil : template.gap engine keywords = []
  · rcases withoutKeyword_eq_or_isLed engine keywords template with ⟨-, heq⟩ |
      ⟨_, -, _, _, _, _, -, hled, -⟩
    · rw [heq]
      exact fits_append (isOpening_nil keywords) h
    · exact absurd hnil hled.gap_ne_nil
  · obtain ⟨front, body, hcall, -, hbehind⟩ := exists_body_of_fits hnil h
    -- the only blank is put back as the one blank of the opening
    obtain ⟨blank, hblank⟩ : ∃ blank, template.gap engine keywords = [blank] := by
      have hpositive := List.length_pos_iff.mpr hnil
      exact List.length_eq_one_iff.mp (by omega)
    have hwhite : Unicode.isWhiteSpace blank = true :=
      isWhiteSpace_of_mem_gap blank (by rw [hblank]; exact List.mem_singleton_self blank)
    rw [hcall, hblank]
    exact hbehind blank hwhite

/-- **Without slots, more than one blank keeps a definition from its own text.** The rest has to be
at the end, so all of the blanks but one would belong to the keyword in front. -/
theorem length_gap_le_of_fits {properties : Bindings} (halternating : Alternating template.pieces)
    (hslots : template.slots = [])
    (h : fits properties.keywords (template.withoutKeyword engine properties.keywords).pieces
      (leadingLiteral template.pieces) = true) :
    (template.gap engine properties.keywords).length ≤ 1 := by
  have hstrippedSlots :
      slotsOf (template.withoutKeyword engine properties.keywords).pieces = [] := by
    rw [← hslots]
    exact slots_withoutKeyword properties.keywords template
  obtain ⟨opening, body, heq, hopening, hbody⟩ :=
    (fits_iff_of_slotless (halternating.withoutKeyword _) hstrippedSlots).mp h
  rcases withoutKeyword_eq_or_isLed engine properties.keywords template with ⟨hnil, -⟩ |
    ⟨_, -, first, front, rest, pieces, hpieces, hled, hstripped⟩
  · simp [hnil]
  · -- what is left of the definition is as long as the end of the call that it stands for
    rw [hpieces] at heq halternating
    rw [hstripped, leadingLiteral_of_alternating halternating] at hbody
    rw [Piece.leadingLiteral_literal, hled.eq_append, ← List.append_assoc] at heq
    obtain ⟨hfront, -⟩ := List.append_inj' heq hbody.length_eq
    rcases hopening with hnil | ⟨keyword, hkeyword, other, blank, hother, hsame, -⟩
    · rw [hnil] at hfront
      exact absurd (List.append_eq_nil_iff.mp hfront).2 hled.gap_ne_nil
    · rw [hother] at hfront
      -- the opening ends in one blank and its keyword in none, so the blanks are that one
      have hone := eq_singleton_of_append_eq (properties.getLast?_of_mem_keywords hkeyword) hsame
        hfront.symm hled.gap_ne_nil hled.isWhiteSpace_of_mem_gap
      rw [hone.2]
      exact Nat.le_refl 1

/-! ## Matching the text of a definition

For a definition without slots the calls that it loses are those that are written as it is itself,
so it is enough to ask whether it matches its own text. -/

variable {setting : Setting}

theorem arguments?_of_slotless (hslots : template.slots = []) :
    arguments? template call = some [] := by
  have hframes : template.frames = [] := ofPieces_eq_nil hslots
  rw [arguments?, rawArguments?, hframes, hslots]
  rfl

theorem arguments?_stripped_of_slotless (hslots : template.slots = []) :
    arguments? (setting.stripped template) call = some [] :=
  arguments?_of_slotless ((setting.slots_stripped template).trans hslots)

theorem match?_of_slotless (hslots : template.slots = []) :
    match? setting template call = some [] ↔
      setting.limit.permits call = true ∧ setting.limit.permits template.source = true
        ∧ setting.compiles template = true
        ∧ fits setting.properties.keywords (setting.stripped template).pieces call = true := by
  rw [match?_eq_some_iff, arguments?_stripped_of_slotless hslots]
  simp

theorem isMatch_of_slotless (hslots : template.slots = []) :
    isMatch setting template call = true ↔ match? setting template call = some [] := by
  rw [isMatch, Option.isSome_iff_exists]
  constructor
  · intro h
    obtain ⟨arguments, hmatch⟩ := h
    have hsame := (match?_eq_some_iff.mp hmatch).2.2.2.2
    rw [arguments?_stripped_of_slotless hslots] at hsame
    rw [hmatch, ← hsame]
  · intro hmatch
    exact ⟨[], hmatch⟩

/-- **Taking the keyword off a definition loses no call as long as one blank follows the keyword.**
With more blanks a call that has them all is understood only with one in their place. A definition
without slots keeps all calls exactly if there is one blank at most, and one without backslashes too
matches its own text, within the limits, exactly then. -/
theorem fits_stripped_of_fits {definition : Text}
    (hparsed : ofText? setting.engine definition = .ok template) :
    ((template.gap setting.engine setting.properties.keywords).length ≤ 1 →
        ∀ call, fits [] template.pieces call = true →
          fits setting.properties.keywords (setting.stripped template).pieces call = true)
      ∧ (1 < (template.gap setting.engine setting.properties.keywords).length →
          ∀ call, fits [] template.pieces call = true →
            ∃ front body, call =
              front ++ (template.gap setting.engine setting.properties.keywords ++ body)
              ∧ fits setting.properties.keywords (setting.stripped template).pieces body = true
              ∧ ∀ blank, Unicode.isWhiteSpace blank = true →
                  fits setting.properties.keywords (setting.stripped template).pieces
                    (front ++ blank :: body) = true)
      ∧ (template.slots = [] →
          ((∀ call, fits [] template.pieces call = true →
              fits setting.properties.keywords (setting.stripped template).pieces call = true) ↔
            (template.gap setting.engine setting.properties.keywords).length ≤ 1))
      ∧ (template.slots = [] → '\\' ∉ definition →
          (isMatch setting template definition = true ↔
            setting.limit.permits definition = true
              ∧ setting.compiles template = true
              ∧ (template.gap setting.engine setting.properties.keywords).length ≤ 1)) := by
  have halternating := alternating_of_ofText? hparsed
  -- a template without slots fits its own literal, which is the call to be lost
  have hwhole : template.slots = [] →
      fits [] template.pieces (leadingLiteral template.pieces) = true := by
    intro hslots
    exact (fits_iff_of_slotless halternating hslots).mpr
      ⟨[], _, rfl, isOpening_nil [], sameBy_refl sameFolded_refl _⟩
  refine ⟨fun hgap call h => fits_withoutKeyword hgap h, fun hgap call h => ?_, fun hslots => ?_,
    fun hslots hplain => ?_⟩
  · exact exists_body_of_fits (List.ne_nil_of_length_pos (by omega)) h
  · constructor
    · intro hall
      exact length_gap_le_of_fits halternating hslots (hall _ (hwhole hslots))
    · intro hgap call h
      exact fits_withoutKeyword hgap h
  · -- without backslashes that literal is the definition as it was written
    have htext : leadingLiteral template.pieces = definition := by
      rw [pieces_of_literal hparsed hslots hplain]
      by_cases hempty : definition = []
      · rw [hempty]
        rfl
      · rw [foldr_consChar hempty, Piece.leadingLiteral_literal, Piece.leadingLiteral_nil,
          List.append_nil]
    rw [isMatch_of_slotless hslots, match?_of_slotless hslots, (ofText?_eq_ok hparsed).1]
    constructor
    · intro h
      obtain ⟨hpermits, -, hcompiles, hfits⟩ := h
      rw [← htext] at hfits
      exact ⟨hpermits, hcompiles, length_gap_le_of_fits halternating hslots hfits⟩
    · intro h
      obtain ⟨hpermits, hcompiles, hgap⟩ := h
      have hfits := hwhole hslots
      rw [htext] at hfits
      exact ⟨hpermits, hpermits, hcompiles, fits_withoutKeyword hgap hfits⟩

/-- A definition with one blank behind its keyword. -/
theorem isMatch_given_one_blank :
    ∃ template, ofText? .unlimited "Given I go".toList = .ok template
      ∧ isMatch ⟨.unlimited, .empty, .default⟩ template "Given I go".toList = true := by
  have hparsed : ofText? .unlimited "Given I go".toList =
      .ok ⟨"Given I go".toList, [.literal "Given I go".toList]⟩ := by
    decide
  have hgap : (gap .unlimited Bindings.empty.keywords
      ⟨"Given I go".toList, [.literal "Given I go".toList]⟩).length ≤ 1 := by
    decide
  refine ⟨_, hparsed, ((fits_stripped_of_fits hparsed).2.2.2 rfl (by decide)).mpr ?_⟩
  exact ⟨by decide, by decide, hgap⟩

/-- A definition with two blanks behind its keyword fits its own text, and does not match it: both
blanks are taken off with the keyword, and an opening has one only. -/
theorem exists_not_isMatch_two_blanks :
    ∃ template, ofText? .unlimited "Given  I go".toList = .ok template
      ∧ fits [] template.pieces "Given  I go".toList = true
      ∧ SizeLimit.default.permits "Given  I go".toList = true
      ∧ fits Bindings.empty.keywords
        (Setting.stripped ⟨.unlimited, .empty, .default⟩ template).pieces
          "Given  I go".toList = false
      ∧ isMatch ⟨.unlimited, .empty, .default⟩ template "Given  I go".toList = false := by
  refine ⟨⟨"Given  I go".toList, [.literal "Given  I go".toList]⟩, ?_⟩
  decide

/-! ## Where the slots stand makes no difference

A slot knows at which byte of the definition it stands, for reports. In a definition with a keyword
in front all slots stand further behind, and matching must not depend on that. -/

theorem map_unnamed_map_moved (distance : Nat) (pieces : List Piece) :
    (pieces.map (Piece.moved distance)).map Piece.unnamed = pieces.map Piece.unnamed := by
  rw [List.map_map]
  refine List.map_congr_left fun piece _ => ?_
  cases piece <;> rfl

/-- **Templates that differ in where their slots stand match the same calls, with the same
arguments.** -/
theorem match?_eq_of_moved {long short : Template} {distance : Nat}
    (hlong : setting.limit.permits long.source = true)
    (hshort : setting.limit.permits short.source = true)
    (hpieces : (setting.stripped long).pieces =
      (setting.stripped short).pieces.map (Piece.moved distance)) (call : Text) :
    match? setting long call = match? setting short call := by
  have hsource : setting.limit.permits long.source = setting.limit.permits short.source := by
    rw [hlong, hshort]
  have hunnamed : (setting.stripped long).pieces.map Piece.unnamed =
      (setting.stripped short).pieces.map Piece.unnamed := by
    rw [hpieces, map_unnamed_map_moved]
  exact match?_eq_of_unnamed hsource hunnamed call

/-! ## A keyword in front of a definition

The long definition is the short one behind a keyword and a blank. Its pieces are those of the short
one, with a longer first literal and the slots moved. If the keyword itself is taken off, these are
the pieces of the short one again; if some other entry is, too much or too little is left, which can
be told from how long the rest is. -/

section KeywordDefinition

variable {keyword definition : Text} {long short : Template}

/-- A definition with a keyword in front has the keyword and the blank in its first literal. Behind
that its pieces are those of the definition alone, further behind. -/
theorem pieces_of_keyword_definition (hplain : IsPlain keyword)
    (hlong : ofText? engine (keyword ++ ' ' :: definition) = .ok long)
    (hshort : ofText? engine definition = .ok short) :
    long.pieces = .literal (keyword ++ ' ' :: leadingLiteral short.pieces)
      :: (Piece.behindLiteral short.pieces).map (Piece.moved (byteLength (keyword ++ [' ']))) := by
  have hfront : IsPlain (keyword ++ [' ']) := by
    intro c hc
    rcases List.mem_append.mp hc with hc | hc
    · exact hplain c hc
    · rw [List.mem_singleton.mp hc]
      decide
  rw [← List.singleton_append, ← List.append_assoc] at hlong
  rw [pieces_append hfront hlong hshort, foldr_consChar (by simp), leadingLiteral_map_moved,
    behindLiteral_map_moved, List.append_assoc, List.singleton_append]

variable {entry lead : Text} {pieces : List Piece}

/-- If the entry is the keyword itself, the definition without the keyword is left, with its slots
where they stand behind the keyword. The definition does not begin with a blank, for a blank of its
own would be taken off with the one behind the keyword. -/
theorem pieces_stripped_of_sameBy (halternating : Alternating short.pieces)
    (hpieces : long.pieces = .literal (keyword ++ ' ' :: leadingLiteral short.pieces)
      :: (Piece.behindLiteral short.pieces).map (Piece.moved (byteLength (keyword ++ [' ']))))
    (hblank : ∀ c ∈ (leadingLiteral short.pieces).head?, Unicode.isWhiteSpace c = false)
    (hcompiles : engine.compiles (.stripping keywords) = true)
    (hentry : Keyword.leader? keywords (keyword ++ ' ' :: leadingLiteral short.pieces) = some entry)
    (hsame : SameBy sameFolded entry keyword) :
    (long.withoutKeyword engine keywords).pieces =
      short.pieces.map (Piece.moved (byteLength (keyword ++ [' ']))) := by
  obtain ⟨-, front, gap, rest, hled⟩ := Keyword.leader?_eq_some hentry
  -- behind the keyword and its one blank the rest is the first literal of the short definition
  obtain rfl := rest_eq_of_sameBy hled hblank hsame
  have hstrip : Keyword.strip? engine keywords (keyword ++ ' ' :: leadingLiteral short.pieces) =
      some (leadingLiteral short.pieces) := by
    rw [Keyword.strip?_eq_bind hcompiles, hentry, Option.bind_some]
    exact Keyword.dropWithBlanks?_eq_some_iff.mpr ⟨front, gap, hled⟩
  rw [pieces_withoutKeyword hpieces hstrip]
  conv_rhs => rw [halternating.eq_leading]
  split
  · rfl
  · rfl

/-- What is left of the first literal is as long as what follows keyword and blank only if the
keyword itself is taken off. -/
theorem exists_left (engine : Engine) {properties : Bindings}
    (hkeyword : keyword ∈ properties.keywords)
    (hpieces : long.pieces = .literal (keyword ++ ' ' :: lead) :: pieces)
    (hentry : Keyword.leader? properties.keywords (keyword ++ ' ' :: lead) = some entry) :
    ∃ left, (long.withoutKeyword engine properties.keywords).pieces =
        (if left = [] then pieces else .literal left :: pieces)
      ∧ (left.length = lead.length →
        engine.compiles (.stripping properties.keywords) = true
          ∧ SameBy sameFolded entry keyword) := by
  by_cases hcompiles : engine.compiles (.stripping properties.keywords) = true
  · obtain ⟨-, front, gap, rest, hled⟩ := Keyword.leader?_eq_some hentry
    have hstrip : Keyword.strip? engine properties.keywords (keyword ++ ' ' :: lead) =
        some rest := by
      rw [Keyword.strip?_eq_bind hcompiles, hentry, Option.bind_some]
      exact Keyword.dropWithBlanks?_eq_some_iff.mpr ⟨front, gap, hled⟩
    refine ⟨rest, pieces_withoutKeyword hpieces hstrip, fun hlength => ⟨hcompiles, ?_⟩⟩
    exact sameBy_of_length_eq hled (properties.getLast?_of_mem_keywords hkeyword) hlength
  · -- without a keyword pattern the whole literal is left
    refine ⟨keyword ++ ' ' :: lead, ?_, fun hlength => ?_⟩
    · have hnone : Keyword.strip? engine properties.keywords (keyword ++ ' ' :: lead) = none :=
        if_neg hcompiles
      rw [if_neg (by simp), withoutKeyword, hpieces]
      simp only [hnone, hpieces]
    · simp only [List.length_append, List.length_cons] at hlength
      omega

/-- Without slots the two definitions are told apart, if it is not the keyword itself that is taken
off, by the text of the one without the keyword: what is left of the other is longer or shorter, and
an opening in front of it would be a keyword at the beginning of the text. -/
theorem not_fits_of_other {properties : Bindings} (hkeyword : keyword ∈ properties.keywords)
    (halternating : Alternating long.pieces) (hslots : slotsOf pieces = [])
    (hpieces : long.pieces = .literal (keyword ++ ' ' :: lead) :: pieces)
    (hunled : ∀ entry ∈ properties.keywords, Keyword.dropWithBlanks? lead entry = none)
    (hentry : Keyword.leader? properties.keywords (keyword ++ ' ' :: lead) = some entry)
    (hother : ¬(engine.compiles (.stripping properties.keywords) = true
      ∧ SameBy sameFolded entry keyword)) :
    fits properties.keywords
      (long.withoutKeyword engine properties.keywords).pieces lead = false := by
  refine Bool.eq_false_iff.mpr fun hfits => hother ?_
  obtain ⟨left, hleft, hshort⟩ := exists_left engine hkeyword hpieces hentry
  have hstrippedSlots : slotsOf (long.withoutKeyword engine properties.keywords).pieces = [] := by
    have hsame := @slots_withoutKeyword engine properties.keywords long
    rw [slots, slots, hpieces, slotsOf_literal, hslots] at hsame
    exact hsame
  obtain ⟨opening, body, heq, hopening, hbody⟩ :=
    (fits_iff_of_slotless (halternating.withoutKeyword _) hstrippedSlots).mp hfits
  rw [hleft, leadingLiteral_of_alternating (hpieces ▸ halternating)] at hbody
  rcases hopening with hnil | ⟨other, hotherKeyword, front, blank, hfront, hsame, hwhite⟩
  · rw [hnil, List.nil_append] at heq
    exact hshort (by rw [heq, hbody.length_eq])
  · -- the definition would begin with a keyword of its own
    have hleads : (Keyword.dropWithBlanks? lead other).isSome = true := by
      refine Keyword.isSome_dropWithBlanks?_iff.mpr ⟨front, blank, body, ?_, hsame, hwhite⟩
      rw [heq, hfront, List.append_assoc, List.singleton_append]
    rw [hunled other hotherKeyword] at hleads
    cases hleads

/-- **A keyword in front of a definition makes no difference, unless another entry comes first.**
The entry that is taken off is the first one in the list that leads keyword, blank and the beginning
of the definition. If it is the keyword itself, both definitions match the same calls with the same
arguments. If not, or if the list is too long for keywords to be taken off, and there are no slots,
the text of the definition matches without the keyword and not with it. -/
theorem match?_keyword_definition (hkeyword : keyword ∈ setting.properties.keywords)
    (hplain : IsPlain keyword)
    (hlong : ofText? setting.engine (keyword ++ ' ' :: definition) = .ok long)
    (hshort : ofText? setting.engine definition = .ok short)
    (hblank : ∀ c ∈ (leadingLiteral short.pieces).head?, Unicode.isWhiteSpace c = false)
    (hunled : ∀ entry ∈ setting.properties.keywords,
      Keyword.dropWithBlanks? (leadingLiteral short.pieces) entry = none)
    (hpermits : setting.limit.permits long.source = true) :
    ∃ entry, Keyword.leader? setting.properties.keywords
        (keyword ++ ' ' :: leadingLiteral short.pieces) = some entry
      ∧ (setting.engine.compiles (.stripping setting.properties.keywords) = true
            ∧ SameBy sameFolded entry keyword →
          ∀ call, match? setting long call = match? setting short call)
      ∧ (¬(setting.engine.compiles (.stripping setting.properties.keywords) = true
            ∧ SameBy sameFolded entry keyword) →
          short.slots = [] → setting.limit.permits (leadingLiteral short.pieces) = true →
          setting.compiles short = true →
          match? setting short (leadingLiteral short.pieces) = some []
            ∧ match? setting long (leadingLiteral short.pieces) = none) := by
  have hpieces := pieces_of_keyword_definition hplain hlong hshort
  have halternating := alternating_of_ofText? hshort
  -- the keyword itself leads the long definition, so some entry does, and the first is taken off
  have hleads : (Keyword.dropWithBlanks?
      (keyword ++ ' ' :: leadingLiteral short.pieces) keyword).isSome = true :=
    Keyword.isSome_dropWithBlanks?_iff.mpr
      ⟨keyword, ' ', _, rfl, sameBy_refl sameFolded_refl keyword, by decide⟩
  obtain ⟨entry, hentry⟩ := Keyword.exists_leader? hkeyword hleads
  have hstays : setting.stripped short = short := withoutKeyword_of_unled hunled
  -- the short definition has fewer bytes, so it is within the limits as well
  have hsource : setting.limit.permits short.source = true := by
    rw [(ofText?_eq_ok hlong).1] at hpermits
    rw [(ofText?_eq_ok hshort).1]
    simp only [SizeLimit.permits, decide_eq_true_eq, byteLength_append,
      byteLength_cons] at hpermits ⊢
    omega
  refine ⟨entry, hentry, fun h call => ?_, fun hother hslots hshortPermits hcompiles => ⟨?_, ?_⟩⟩
  · -- the keyword itself is taken off: the pieces of the short one are left, further behind
    have hmoved : (setting.stripped long).pieces =
        (setting.stripped short).pieces.map (Piece.moved (byteLength (keyword ++ [' ']))) := by
      rw [hstays]
      exact pieces_stripped_of_sameBy halternating hpieces hblank h.1 hentry h.2
    exact match?_eq_of_moved hpermits hsource hmoved call
  · -- another entry is taken off: the short definition still matches its own text
    rw [match?_of_slotless hslots, hstays]
    refine ⟨hshortPermits, hsource, hcompiles, ?_⟩
    exact (fits_iff_of_slotless halternating hslots).mpr
      ⟨[], _, rfl, isOpening_nil _, sameBy_refl sameFolded_refl _⟩
  · -- and what is left of the long one does not fit it
    have hbehindSlots : slotsOf ((Piece.behindLiteral short.pieces).map
        (Piece.moved (byteLength (keyword ++ [' '])))) = [] := by
      rw [slots] at hslots
      rw [slotsOf_map_moved, slotsOf_behindLiteral, hslots, List.map_nil]
    have hnot := not_fits_of_other hkeyword (alternating_of_ofText? hlong) hbehindSlots hpieces
      hunled hentry hother
    refine Option.eq_none_iff_forall_ne_some.mpr fun arguments hmatch => ?_
    obtain ⟨-, -, -, hfits, -⟩ := match?_eq_some_iff.mp hmatch
    exact Bool.eq_false_iff.mp hnot hfits

/-- The usual keyword in front of a definition. -/
theorem match?_given_definition :
    ∃ long short, ofText? .unlimited "Given I go".toList = .ok long
    ∧ ofText? .unlimited "I go".toList = .ok short
      ∧ ∀ call, match? ⟨.unlimited, .empty, .default⟩ long call =
        match? ⟨.unlimited, .empty, .default⟩ short call := by
  have hlong : ofText? .unlimited ("Given".toList ++ ' ' :: "I go".toList) =
      .ok ⟨"Given I go".toList, [.literal "Given I go".toList]⟩ := by
    decide
  have hshort : ofText? .unlimited "I go".toList =
      .ok ⟨"I go".toList, [.literal "I go".toList]⟩ := by
    decide
  have hkeyword : "Given".toList ∈ (Setting.mk .unlimited .empty .default).properties.keywords := by
    decide
  have hleader : Keyword.leader? (Setting.mk .unlimited .empty .default).properties.keywords
      ("Given".toList ++ ' ' :: "I go".toList) = some "Given".toList := by
    decide
  have hblank : ∀ c ∈ ("I go".toList : Text).head?, Unicode.isWhiteSpace c = false := by
    intro c hc
    obtain rfl : 'I' = c := Option.some.inj hc
    decide
  obtain ⟨entry, hentry, hsame, -⟩ := match?_keyword_definition hkeyword (by decide) hlong hshort
    hblank (by decide) (by decide)
  obtain rfl : "Given".toList = entry := Option.some.inj (hleader.symm.trans hentry)
  exact ⟨_, _, hlong, hshort, hsame ⟨by decide, sameBy_refl sameFolded_refl _⟩⟩

/-- With a synonym that begins with the keyword, it is the keyword that is taken off, because it
comes first in the list. -/
theorem exists_match?_ne_of_longer_keyword :
    ∃ properties long short, "Given that".toList ∈ Bindings.keywords properties
      ∧ IsPlain "Given that".toList
      ∧ ofText? .unlimited "Given that I go".toList = .ok long
      ∧ ofText? .unlimited "I go".toList = .ok short
      ∧ SizeLimit.default.permits long.source = true
      ∧ (∀ entry ∈ properties.keywords,
          Keyword.dropWithBlanks? (leadingLiteral short.pieces) entry = none)
      ∧ match? ⟨.unlimited, properties, .default⟩ short "I go".toList = some []
      ∧ match? ⟨.unlimited, properties, .default⟩ long "I go".toList = none := by
  refine ⟨Bindings.empty.set "Given".toList (.string "Given that".toList),
    ⟨"Given that I go".toList, [.literal "Given that I go".toList]⟩,
    ⟨"I go".toList, [.literal "I go".toList]⟩, ?_⟩
  decide

end KeywordDefinition

end StepPhrase.Call
