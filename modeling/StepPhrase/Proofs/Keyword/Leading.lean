import StepPhrase.Proofs.Argument.Preference
import StepPhrase.Proofs.Keyword.Synonyms
import StepPhrase.Keyword.Leading

/-!
# Leading keywords

The words that a text may begin with are written as one pattern: a choice between all of them, each
of them written so that its characters stand for themselves. A search for a choice takes the first
alternative that matches. `Keyword.leading?` goes through the list of the words instead, and finds
the same.

The list goes through whole words, the pattern through alternatives. They would part where a search
gives up an alternative for a later one, but a word can be matched in one way only, and nothing has
to stand behind it. Without an expression for the words no keyword is found at all.

* **`source_choice`**, **`ways_choice`** — the choice as it is written, and the ways in which it can
  begin a text.
* **`leading?_eq_some_iff`** — what is found is the beginning of the text that the first word in the
  list equals.
* **`leading?_spec`** — all of it for the words of some bindings.
-/

namespace StepPhrase

open Text

namespace Pattern

variable {engine : Engine}

/-- A text whose characters stand for themselves. The pattern of the empty text is the repetition of
an empty class, which describes no other text. -/
def ofText : Text → Pattern
  | [] => .star (.oneOf [])
  | c :: t => word c t

/-- The choice between some texts, an earlier one before a later one. -/
def choice (texts : List Text) : Pattern := anyOf (texts.map ofText)

variable {texts : List Text}

/-! ## The choice as it is written

The pattern is given as a text, which is made from the bindings word by word. It is the source of
one pattern, a choice, so what is said of the choice is said of the text. -/

theorem source_word (c : Char) (t : Text) : (word c t).source = escape (c :: t) := by
  induction t generalizing c with
  | nil => rfl
  | cons d t ih =>
    have hnot : (word d t).isAlternation = false := by cases t <;> rfl
    rw [word, source, hnot, ih, source]
    simp [isAlternation, groupIf, escape]

theorem source_ofText {t : Text} (h : t ≠ []) : (ofText t).source = escape t := by
  obtain ⟨c, rest, rfl⟩ := List.exists_cons_of_ne_nil h
  exact source_word c rest

theorem source_anyOf {ps : List Pattern} (h : ps ≠ []) :
    (anyOf ps).source = join ['|'] (ps.map source) := by
  fun_induction anyOf ps with
  | case1 => exact absurd rfl h
  | case2 p => simp [join]
  | case3 p ps hps ih =>
    obtain ⟨q, qs, rfl⟩ := List.exists_cons_of_ne_nil hps
    rw [source, ih hps]
    simp [join]

/-- **The choice as it is written**, if none of the texts is empty: the texts with their special
characters escaped, and bars between them. -/
theorem source_choice (hne : texts ≠ []) (htexts : ∀ t ∈ texts, t ≠ []) :
    (choice texts).source = join ['|'] (texts.map escape) := by
  have hescape : (texts.map ofText).map source = texts.map escape := by
    rw [List.map_map]
    exact List.map_congr_left fun t ht => source_ofText (htexts t ht)
  rw [choice, source_anyOf (by simpa using hne), hescape]

/-! ## The first alternative

A word has one way to match if the text begins with it, and else none. So the ways of the choice are
those of the words, one behind the other. -/

theorem ways_word (c : Char) (literal t : Text) :
    ways (word c literal) t = waysAll ((c :: literal).map .char) t := by
  induction literal generalizing c t with
  | nil => exact (List.flatMap_singleton' _).symm
  | cons d literal ih =>
    rw [word, ways, List.map_cons, waysAll]
    exact congrArg (List.flatMap · _) (funext fun rest => ih d rest)

theorem ways_ofText (literal t : Text) :
    ways (ofText literal) t = (dropLiteral? sameFolded literal t).toList := by
  cases literal with
  | nil =>
    have hnone : ways (.oneOf []) t = [] := by cases t <;> rfl
    rw [ofText, ways, behindMany, hnone]
    rfl
  | cons c literal => rw [ofText, ways_word, waysAll_literal]

/-- **The ways to match a choice**, in the order of the texts. Each text that the given one begins
with is one way, and the others are none. -/
theorem ways_choice (texts : List Text) (t : Text) :
    ways (choice texts) t = texts.filterMap (dropLiteral? sameFolded · t) := by
  rw [choice, ways_anyOf, List.map_map]
  induction texts with
  | nil => rfl
  | cons text texts ih =>
    rw [List.map_cons, List.flatten_cons, ih, Function.comp_apply, ways_ofText, List.filterMap_cons]
    cases dropLiteral? sameFolded text t <;> rfl

end Pattern

namespace Keyword

open Pattern

variable {keywords : List Text} {t front : Text}

/-- A word is the beginning of a text, in any case. It may go on behind the word without a blank. -/
def Begins (word t : Text) : Prop := ∃ front rest, t = front ++ rest ∧ SameBy sameFolded word front

theorem isSome_drop?_iff {word : Text} : (drop? word t).isSome = true ↔ Begins word t :=
  beginsWith_iff

/-- **What is found is the beginning of the text that the first word in the list equals.** It is as
the text has it, in the case that it has there. -/
theorem leading?_eq_some_iff (hcompiles : engine.compiles (.leading keywords) = true) :
    leading? engine keywords t = some front ↔
      ∃ before word after rest, keywords = before ++ word :: after
        ∧ (∀ other ∈ before, ¬Begins other t)
        ∧ t = front ++ rest ∧ SameBy sameFolded word front := by
  rw [leading?, if_pos hcompiles, Option.map_eq_some_iff]
  constructor
  · rintro ⟨word, hfind, rfl⟩
    obtain ⟨hbegins, before, after, rfl, hbefore⟩ := List.find?_eq_some_iff_append.mp hfind
    obtain ⟨front, rest, rfl, hsame⟩ := isSome_drop?_iff.mp hbegins
    refine ⟨before, word, after, rest, rfl, fun other hother hbegins => ?_, ?_, ?_⟩
    · have hnot := hbefore other hother
      rw [isSome_drop?_iff.mpr hbegins] at hnot
      cases hnot
    · rw [hsame.length_eq, List.take_left]
    · rwa [hsame.length_eq, List.take_left]
  · rintro ⟨before, word, after, rest, rfl, hbefore, rfl, hsame⟩
    refine ⟨word, List.find?_eq_some_iff_append.mpr
      ⟨?_, before, after, rfl, fun other hother => ?_⟩, ?_⟩
    · exact isSome_drop?_iff.mpr ⟨front, rest, rfl, hsame⟩
    · rw [Bool.not_eq_true', Bool.eq_false_iff, Ne, isSome_drop?_iff]
      exact hbefore other hother
    · rw [hsame.length_eq, List.take_left]

theorem captureHere?_choice (keywords : List Text) (t : Text) :
    captureHere? (choice keywords) [] t =
      (keywords.findSome? (drop? · t)).map fun rest => (t.take (t.length - rest.length), rest) := by
  have hgroup : groupWays (choice keywords) [] t = ways (choice keywords) t :=
    List.flatMap_singleton' _
  rw [captureHere?, hgroup, ways_choice, List.head?_filterMap]
  rfl

/-- **The list is searched as its choice is**: what a search of the pattern captures at the front of
a text is what the list gives. -/
theorem leading?_eq_captureHere?
    (hcompiles : engine.compiles (.leading keywords) = true) (t : Text) :
    leading? engine keywords t = (captureHere? (choice keywords) [] t).map (·.1) := by
  rw [leading?, if_pos hcompiles, captureHere?_choice, Option.map_map]
  clear hcompiles
  -- both go through the list to the first word that the text begins with
  induction keywords with
  | nil => rfl
  | cons word keywords ih =>
    rw [List.find?_cons, List.findSome?_cons]
    cases hdrop : drop? word t with
    | none => exact ih
    | some rest =>
      obtain ⟨front, rfl, hsame⟩ := dropLiteral?_eq_some_iff.mp hdrop
      simp [hsame.length_eq]

/-! ## The words of some bindings

The order of the words decides between them: an earlier one is found even if a later one is longer
and would be found too. -/

theorem keywordPattern_eq (b : Bindings) :
    b.keywordPattern = "^(".toList ++ (choice b.keywords).source ++ ")".toList := by
  have hne : b.keywords ≠ [] := List.cons_ne_nil _ _
  rw [source_choice hne fun word hword => (Bindings.isTrimmed_of_mem_keywords hword).ne_nil]
  rfl

/-- **A text begins with the first word in the list that it can begin with.** The words are the
keywords in their order, each followed by its own synonyms. If the engine compiles the pattern for
them, a keyword leads a text exactly if the text begins with some word, in any case; what is found
is the beginning of the text that the first such word in the list equals, and is not empty. The
pattern is the choice between the words, with their characters standing for themselves, and what is
found is what a search takes from the front of the text that tries the alternatives in order. -/
theorem leading?_spec (b : Bindings) (t : Text)
    (hcompiles : engine.compiles (.leading b.keywords) = true) :
    ((leading? engine b.keywords t).isSome = true ↔ ∃ word ∈ b.keywords, Begins word t)
      ∧ (∀ front, leading? engine b.keywords t = some front ↔
          ∃ before word after rest, b.keywords = before ++ word :: after
            ∧ (∀ other ∈ before, ¬Begins other t)
            ∧ t = front ++ rest ∧ SameBy sameFolded word front)
      ∧ (∀ front, leading? engine b.keywords t = some front → front ≠ [])
      ∧ b.keywords = (["Given", "When", "Then", "And", "Using", "Having", "With"].map
        String.toList).flatMap (fun name => name :: b.synonyms name)
      ∧ b.keywordPattern = "^(".toList ++ (choice b.keywords).source ++ ")".toList
      ∧ leading? engine b.keywords t = (captureHere? (choice b.keywords) [] t).map (·.1) := by
  refine ⟨?_, fun front => leading?_eq_some_iff hcompiles, fun front hfront => ?_, rfl,
    keywordPattern_eq b, leading?_eq_captureHere? hcompiles t⟩
  · rw [leading?, if_pos hcompiles, Option.isSome_map, List.find?_isSome]
    simp only [isSome_drop?_iff]
  · -- a word has no blanks at its ends and is not blank, so it is not empty
    obtain ⟨before, word, after, rest, hkeywords, -, -, hsame⟩ :=
      (leading?_eq_some_iff hcompiles).mp hfront
    have hword : word ∈ b.keywords := hkeywords ▸ List.mem_append_right before List.mem_cons_self
    rintro rfl
    exact (Bindings.isTrimmed_of_mem_keywords hword).ne_nil
      (List.length_eq_zero_iff.mp hsame.length_eq)

/-- Synonyms with signs that mean something in patterns, one of which begins with another, and a
text that begins with the Kelvin sign, which is a `k` in capital letters. -/
theorem leading?_spec_kelvin :
    ∃ b : Bindings, b.synonyms "Given".toList = ["k+".toList, "K".toList]
      ∧ b.synonyms "With".toList = ["k+(x)".toList]
      ∧ Engine.unlimited.compiles (.leading b.keywords) = true
      ∧ b.keywordPattern = "^(Given|k\\+|K|When|Then|And|Using|Having|With|k\\+\\(x\\))".toList
      ∧ leading? .unlimited b.keywords "\u212a+(x) y".toList = some "\u212a+".toList
      ∧ ¬∃ word ∈ b.keywords, Begins word "y k+".toList := by
  let b : Bindings := .ofList
    [("Given".toList, .string "k+; K".toList), ("With".toList, .array [.string "k+(x)".toList])]
  have hkeywords : b.keywords = ["Given".toList, "k+".toList] ++ "K".toList ::
      ["When".toList, "Then".toList, "And".toList, "Using".toList, "Having".toList, "With".toList,
        "k+(x)".toList] := by
    decide +kernel
  refine ⟨b, by decide +kernel, by decide +kernel, rfl, by decide +kernel, ?_, ?_⟩
  · have hgiven : ¬Begins "Given".toList "\u212a+(x) y".toList := by
      rw [← isSome_drop?_iff]
      decide
    exact ((@leading?_spec .unlimited b "\u212a+(x) y".toList rfl).2.1 _).mpr ⟨["Given".toList],
      "k+".toList, _, "(x) y".toList, hkeywords, List.forall_mem_singleton.mpr hgiven,
      rfl, by decide⟩
  · rw [← (@leading?_spec .unlimited b "y k+".toList rfl).1]
    decide +kernel

end Keyword

end StepPhrase
