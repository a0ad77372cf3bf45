import StepPhrase.Proofs.Call.KeywordInDefinition
import StepPhrase.Proofs.Template.Layout

/-!
# Definitions of escaped text

Any text can be written as a definition that has no slots: with a backslash in front of each
backslash and each opening brace. The definition is one literal, the text itself. Calls match it in
two ways, as the text in any case of letters and as a keyword, one blank and the text; but none
matches it if the keywords are so many that no automaton is built for them.

The expression that calls are matched with has all keywords in it, and a definition is accepted
before any of them is known. So that a definition was accepted does not say that calls can be
matched with it, and the engine has to be asked again for the expression with the keywords.

* **`isReading_escaped`**, **`pieces_escaped`** — the items and the pieces of escaped text.
* **`isMatch_escaped_iff`** — the calls that match escaped text.
* **`not_isMatch_escaped_bulky`** — a long synonym keeps a call from matching its own text.
-/

namespace StepPhrase.Call

open Template Text
open Piece (leadingLiteral consChar)

variable {engine : Engine}

/-- A text with a backslash in front of each character that a definition would not take literally.
-/
def escaped (s : Text) : Text := s.flatMap fun c => if c = '\\' ∨ c = '{' then ['\\', c] else [c]

/-- The item that a character of escaped text is: one behind a backslash if the character would be
read as something else, and a plain one otherwise. -/
def escapedItem (c : Char) : Item := if c = '\\' ∨ c = '{' then .escaped c else .plain c

variable {s call : Text} {template : Template} {setting : Setting}

/-! ## The definition

Read character by character, each character of the text is one item, plain or escaped, and an item
of either kind adds its character to the literal. -/

theorem source_escapedItem (c : Char) :
    (escapedItem c).source = if c = '\\' ∨ c = '{' then ['\\', c] else [c] := by
  unfold escapedItem
  split <;> rfl

theorem isWhole_escapedItem (c : Char) : (escapedItem c).IsWhole := by
  unfold escapedItem
  split
  · exact trivial
  · next h => exact not_or.mp h

theorem character?_escapedItem (c : Char) : (escapedItem c).character? = some c := by
  unfold escapedItem
  split <;> rfl

/-- **Escaped text is read character by character.** What could begin a slot or an escape is behind
a backslash, so each item is whole and the reading has no other way to go. -/
theorem isReading_escaped (s : Text) : IsReading (escaped s) (s.map escapedItem) := by
  refine ⟨?_, s.map escapedItem, [], (List.append_nil _).symm, ?_, .inl rfl⟩
  · rw [escaped, List.flatMap_map]
    exact List.flatMap_congr fun c _ => (source_escapedItem c).symm
  · intro item hitem
    obtain ⟨c, -, rfl⟩ := List.mem_map.mp hitem
    exact isWhole_escapedItem c

/-- **Escaped text is one literal**, with the characters of the text and without the backslashes;
the empty text is no literal at all. -/
theorem pieces_escaped (hparsed : ofText? engine (escaped s) = .ok template) :
    template.pieces = s.foldr consChar [] := by
  have hcharacters : (s.map escapedItem).map Item.character? = s.map some := by
    rw [List.map_map]
    exact List.map_congr_left fun c _ => character?_escapedItem c
  have happend := @ofItems_append 0 _ _ hcharacters []
  rw [List.append_nil] at happend
  rw [pieces_eq_ofItems (isReading_escaped s) hparsed, happend]
  rfl

theorem bodyOf_foldr_consChar (s : Text) : bodyOf (s.foldr consChar []) = s.map .char := by
  by_cases h : s = []
  · rw [h]
    rfl
  · rw [foldr_consChar h, Piece.leadingLiteral_nil, List.append_nil]
    exact List.flatMap_singleton _ _

/-! ## The calls

Without slots there is nothing to extract, so whether a call matches is whether it fits. -/

/-- **Escaped text matches itself and nothing else**, whatever the case of letters, by itself or
behind a keyword and one blank, if the engine compiles the expression that has the keywords and the
text in it. That it has compiled the expressions of the template is not enough, for the keywords are
not in those. The text must not begin with a keyword and a blank, which would be taken off. -/
theorem isMatch_escaped_iff (hparsed : ofText? setting.engine (escaped s) = .ok template)
    (hunled : ∀ keyword ∈ setting.properties.keywords, ∀ front blank rest,
      s = front ++ blank :: rest → SameBy sameFolded keyword front →
        Unicode.isWhiteSpace blank = false) :
    template.slots = []
      ∧ ∀ call, setting.limit.permits call = true → setting.limit.permits (escaped s) = true →
        (isMatch setting template call = true ↔
          setting.engine.compiles (.call setting.properties.keywords (s.map .char)) = true
            ∧ ∃ opening body, call = opening ++ body ∧ IsOpening setting.properties.keywords opening
              ∧ SameBy sameFolded s body) := by
  -- the template is one literal, and as that does not begin with a keyword, all of it stays
  have hpieces := pieces_escaped hparsed
  have hslots : template.slots = [] := by
    rw [slots, hpieces, slotsOf_foldr_consChar]
    rfl
  have hliteral : leadingLiteral template.pieces = s := by
    rw [hpieces, leadingLiteral_foldr_consChar]
  have hbody : bodyOf template.pieces = s.map .char := by rw [hpieces, bodyOf_foldr_consChar]
  have hstays : setting.stripped template = template := by
    refine withoutKeyword_of_unled fun keyword hkeyword => ?_
    rw [hliteral, ← Option.not_isSome_iff_eq_none, Keyword.isSome_dropWithBlanks?_iff]
    rintro ⟨front, blank, rest, heq, hsame, hblank⟩
    rw [hunled keyword hkeyword front blank rest heq hsame] at hblank
    cases hblank
  refine ⟨hslots, fun call hcall hsource => ?_⟩
  rw [← (ofText?_eq_ok hparsed).1] at hsource
  rw [isMatch_of_slotless hslots, match?_of_slotless hslots, Setting.compiles, hstays, hbody,
    fits_iff_of_slotless (alternating_of_ofText? hparsed) hslots, hliteral]
  -- what is left is that the limits hold, which they do
  simp [hcall, hsource]

/-- A text that would be a slot without the backslash, behind a synonym that looks like a pattern.
-/
theorem isMatch_escaped_iff_synonym :
    ∃ properties template, "(go)*".toList ∈ Bindings.keywords properties
      ∧ escaped "put \\\x7bx\x7d".toList = "put \\\\\\\x7bx\x7d".toList
      ∧ ofText? .unlimited (escaped "put \\\x7bx\x7d".toList) = .ok template ∧ template.slots = []
      ∧ isMatch ⟨.unlimited, properties, .default⟩ template "(GO)* Put \\\x7bX\x7d".toList =
        true := by
  let properties : Bindings := ⟨[("Given".toList, .string "(go)*".toList)]⟩
  have hparsed : ofText? .unlimited (escaped "put \\\x7bx\x7d".toList) =
      .ok ⟨"put \\\\\\\x7bx\x7d".toList, [.literal "put \\\x7bx\x7d".toList]⟩ := by
    decide +kernel
  have hunled : ∀ keyword ∈ properties.keywords,
      Keyword.dropWithBlanks? "put \\\x7bx\x7d".toList keyword = none := by
    decide +kernel
  obtain ⟨hslots, hcalls⟩ := @isMatch_escaped_iff _ _ ⟨.unlimited, properties, .default⟩ hparsed (by
    intro keyword hkeyword front blank rest heq hsame
    rw [Bool.eq_false_iff]
    intro hblank
    have hsome := Keyword.isSome_dropWithBlanks?_iff.mpr ⟨front, blank, rest, heq, hsame, hblank⟩
    rw [hunled keyword hkeyword] at hsome
    cases hsome)
  have hopening : SameBy sameFolded "(go)*".toList "(GO)*".toList := by decide +kernel
  have hbody : SameBy sameFolded "put \\\x7bx\x7d".toList "Put \\\x7bX\x7d".toList := by
    decide +kernel
  refine ⟨properties, _, by decide +kernel, by decide +kernel, hparsed, hslots, ?_⟩
  refine (hcalls _ (by decide) (by decide)).mpr
    ⟨rfl, "(GO)* ".toList, "Put \\\x7bX\x7d".toList, rfl, ?_, hbody⟩
  exact .inr ⟨"(go)*".toList, by decide +kernel, "(GO)*".toList, ' ', rfl, hopening, by decide⟩

/-! ### Keywords that the engine does not compile -/

/-- Properties with a synonym of `n` letters. A synonym is part of the expression for every call, so
a long one is in the way of all definitions. -/
def bulky (n : Nat) : Bindings := ⟨[("Given".toList, .array [.string (List.replicate n 'k')])]⟩

/-- An engine that compiles expressions of up to so many characters. It is as an engine with a limit
on its automata would be, and stands for one where an example needs some engine. -/
def upTo (length : Nat) : Engine := ⟨fun _ source => source.length ≤ length⟩

theorem isTrimmed_replicate {n : Nat} (h : n ≠ 0) : Text.IsTrimmed (List.replicate n 'k') := by
  refine isTrimmed_of_forall (by simpa using h) fun c hc => ?_
  rw [List.eq_of_mem_replicate hc]
  decide

theorem replicate_mem_keywords_bulky {n : Nat} (h : n ≠ 0) :
    List.replicate n 'k' ∈ (bulky n).keywords := by
  -- the list as it stands in the properties is the list of the texts, for these are trimmed
  have hlisted : Bindings.listed (.array ([List.replicate n 'k'].map .string)) =
    [List.replicate n 'k'] :=
    Bindings.listed_array_of_padded (Bindings.padded_self _)
      (List.forall_mem_singleton.mpr (isTrimmed_replicate h))
  have hmem : List.replicate n 'k' ∈ Bindings.listed
      (.array ([List.replicate n 'k'].map .string)) := by
    rw [hlisted]
    exact List.mem_singleton_self _
  exact List.mem_flatMap.mpr ⟨.given, by decide, List.mem_cons_of_mem _ hmem⟩

theorem length_le_length_escape (t : Text) : t.length ≤ (Pattern.escape t).length := by
  induction t with
  | nil => exact Nat.le_refl 0
  | cons c t ih =>
    have hescape : Pattern.escape (c :: t) =
        (if c ∈ Pattern.metacharacters then ['\\', c] else [c]) ++ Pattern.escape t := rfl
    rw [hescape, List.length_append, List.length_cons]
    split <;> simp only [List.length_cons, List.length_nil] <;> omega

theorem length_le_length_join {texts : List Text} {t : Text} (h : t ∈ texts) (separator : Text) :
    t.length ≤ (Text.join separator texts).length := by
  cases texts with
  | nil => cases h
  | cons first rest =>
    rw [Text.join, List.length_append]
    rcases List.mem_cons.mp h with rfl | h
    · exact Nat.le_add_right _ _
    · obtain ⟨before, after, rfl⟩ := List.append_of_mem h
      simp only [List.flatMap_append, List.flatMap_cons, List.length_append]
      omega

theorem length_le_length_writeChoice {texts : List Text} {t : Text} (h : t ∈ texts) :
    t.length ≤ (Pattern.writeChoice texts).length :=
  Nat.le_trans (length_le_length_escape t) (length_le_length_join (List.mem_map_of_mem h) _)

theorem compiles_upTo_eq_false {length : Nat} {keywords : List Text} {keyword : Text}
    (hkeyword : keyword ∈ keywords) (hlong : length < keyword.length) (body : List Pattern) :
    (upTo length).compiles (.call keywords body) = false := by
  have hle := length_le_length_writeChoice hkeyword
  refine decide_eq_false (Nat.not_le.mpr (Nat.lt_of_lt_of_le (Nat.lt_of_lt_of_le hlong hle) ?_))
  simp only [Expression.source, Pattern.group, List.length_append]
  omega

/-- **Without an expression for its calls a template matches none.** Such a template is not refused
anywhere; it is a template like any other that happens to match nothing. -/
theorem isMatch_of_not_compiles (h : setting.compiles template = false) :
    isMatch setting template call = false := by
  rw [isMatch, Option.isSome_eq_false_iff, Option.isNone_iff_eq_none,
    Option.eq_none_iff_forall_ne_some]
  intro arguments harguments
  have hcompiles := (match?_eq_some_iff.mp harguments).2.2.1
  rw [h] at hcompiles
  cases hcompiles

/-- A synonym of 700000 letters, and a letter that does not match itself. -/
theorem not_isMatch_escaped_bulky :
    ∃ template, ofText? (upTo 500000) (escaped "a".toList) = .ok template
      ∧ (∀ keyword ∈ (bulky 700000).keywords, ∀ front blank rest,
          "a".toList = front ++ blank :: rest → SameBy sameFolded keyword front →
            Unicode.isWhiteSpace blank = false)
      ∧ SizeLimit.default.permits "a".toList = true
      ∧ SizeLimit.default.permits (escaped "a".toList) = true
      ∧ SameBy sameFolded "a".toList "a".toList
      ∧ isMatch ⟨upTo 500000, bulky 700000, .default⟩ template "a".toList = false := by
  refine ⟨⟨"a".toList, [.literal "a".toList]⟩, by decide +kernel, ?_, by decide, by decide,
    by decide +kernel, isMatch_of_not_compiles ?_⟩
  · rintro keyword - front blank rest heq -
    cases front with
    | nil =>
      rw [← (List.cons.inj heq).1]
      decide
    | cons _ front => simpa using congrArg List.length heq
  · exact compiles_upTo_eq_false (replicate_mem_keywords_bulky (by decide))
      (by rw [List.length_replicate]; decide) _

end StepPhrase.Call
