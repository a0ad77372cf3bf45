import StepPhrase.Keyword
import StepPhrase.Proofs.Text.Splitting
import StepPhrase.Proofs.Text.Trimming

/-!
# Synonyms

A list of synonyms is written as an array or as one text with semicolons. Either way there may be
blanks around the synonyms and blank entries between them; `Padded` says which entries are a writing
of which synonyms.

Reading comes first and trimming second: a value is taken apart into entries, and the entries that
are blank are dropped. So a semicolon ends an entry in a text and is part of one in an array, which
is the only thing that the notations do not agree on.

* **`listed_array_of_padded`**, **`listed_string_of_padded`** — the two notations are read alike.
* **`isTrimmed_of_mem_listed`** — whatever a property holds, nothing blank is read from it.
* **`synonyms_spec`** — both for the synonyms that are configured under a name.
-/

namespace StepPhrase.Bindings

open Text

/-- Entries that are some words, in order, with blanks around each of them, among blank entries. -/
inductive Padded : List Text → List Text → Prop where
  | nil : Padded [] []
  | blank {words entries : List Text} {entry : Text} (hentry : isBlank entry = true)
      (hrest : Padded words entries) :
      Padded words (entry :: entries)
  | word {words entries : List Text} (before word after : Text) (hbefore : isBlank before = true)
      (hafter : isBlank after = true) (hrest : Padded words entries) :
      Padded (word :: words) ((before ++ (word ++ after)) :: entries)

variable {words entries : List Text} {name : Text}

/-! ## Padding

Blanks around an entry and blank entries are what trimming takes away, whatever characters they are
made of. None of these is a semicolon. -/

/-- Trimmed, and without the empty ones, the entries are the words. Blank entries become empty, and
words are trimmed already, so that none of them does. -/
theorem Padded.filter_map_trim (h : Padded words entries)
    (hwords : ∀ word ∈ words, IsTrimmed word) :
    (entries.map trim).filter (· ≠ []) = words := by
  induction h with
  | nil => rfl
  | blank hentry _ ih =>
    rw [List.map_cons, trim_of_isBlank hentry, List.filter_cons_of_neg (by simp), ih hwords]
  | word before word after hbefore hafter _ ih =>
    obtain ⟨hword, hrest⟩ := List.forall_mem_cons.mp hwords
    rw [List.map_cons, hword.trim_append hbefore hafter,
      List.filter_cons_of_pos (by simpa using hword.ne_nil), ih hrest]

theorem semicolon_not_mem_of_isBlank {t : Text} (h : isBlank t = true) : ';' ∉ t := by
  intro hmem
  have hblank := isWhiteSpace_of_mem_isBlank h ';' hmem
  exact absurd hblank (by decide)

/-- Padding puts no semicolon into an entry, for no blank is a semicolon. -/
theorem Padded.semicolon_not_mem (h : Padded words entries) (hwords : ∀ word ∈ words, ';' ∉ word) :
    ∀ entry ∈ entries, ';' ∉ entry := by
  induction h with
  | nil => exact fun _ hentry => absurd hentry List.not_mem_nil
  | blank hentry _ ih =>
    exact List.forall_mem_cons.mpr
      ⟨semicolon_not_mem_of_isBlank hentry, ih hwords⟩
  | word before word after hbefore hafter _ ih =>
    obtain ⟨hword, hrest⟩ := List.forall_mem_cons.mp hwords
    refine List.forall_mem_cons.mpr ⟨?_, ih hrest⟩
    simp only [List.mem_append, not_or]
    exact ⟨semicolon_not_mem_of_isBlank hbefore, hword, semicolon_not_mem_of_isBlank hafter⟩

theorem padded_self (words : List Text) : Padded words words := by
  induction words with
  | nil => exact .nil
  | cons word words ih =>
    have hword := Padded.word [] word [] rfl rfl ih
    rwa [List.nil_append, List.append_nil] at hword

/-! ## The two notations

Both come down to the same entries: those of an array are given, and those of a text are found again
between its semicolons. -/

theorem rawEntries_array (entries : List Text) :
    rawEntries (.array (entries.map .string)) = entries := by
  have htext : Json.text ∘ Json.string = id := rfl
  rw [rawEntries, List.map_map, htext, List.map_id]

theorem listed_array_of_padded (h : Padded words entries)
    (hwords : ∀ word ∈ words, IsTrimmed word) :
    listed (.array (entries.map .string)) = words := by
  rw [listed, rawEntries_array]
  exact h.filter_map_trim hwords

theorem listed_string_of_padded (h : Padded words entries)
    (hwords : ∀ word ∈ words, IsTrimmed word ∧ ';' ∉ word) :
    listed (.string (join [';'] entries)) = words := by
  rw [listed, rawEntries]
  by_cases hentries : entries = []
  · -- an empty text has one entry, which is blank
    rw [hentries] at h ⊢
    cases h
    rfl
  · rw [splitOn_join hentries (h.semicolon_not_mem fun word hword => (hwords word hword).2)]
    exact h.filter_map_trim fun word hword => (hwords word hword).1

/-- **Nothing blank is read from a property, and nothing with blanks at its ends**, whatever value
the property has. -/
theorem isTrimmed_of_mem_listed {value : Json} {entry : Text} (h : entry ∈ listed value) :
    IsTrimmed entry := by
  obtain ⟨hmem, hne⟩ := List.mem_filter.mp h
  obtain ⟨raw, -, rfl⟩ := List.mem_map.mp hmem
  exact isTrimmed_trim (by simpa using hne)

/-! ## Synonyms and keywords

What holds of the entries that are read holds of synonyms, and the keywords are these and seven
names that are trimmed. -/

theorem synonyms_set (b : Bindings) (name : Text) (value : Json) :
    (b.set name value).synonyms name = listed value := by
  rw [synonyms, get?_set, if_pos rfl]

theorem isTrimmed_of_mem_synonyms {b : Bindings} {synonym : Text} (h : synonym ∈ b.synonyms name) :
    IsTrimmed synonym := by
  unfold synonyms at h
  split at h
  · exact isTrimmed_of_mem_listed h
  · cases h

theorem isTrimmed_name (k : Keyword) : IsTrimmed k.name := by
  cases k <;> decide

/-- **No keyword is blank or has blanks at its ends**, neither the seven that there always are nor
any synonym of one. -/
theorem isTrimmed_of_mem_keywords {b : Bindings} {keyword : Text} (h : keyword ∈ b.keywords) :
    IsTrimmed keyword := by
  obtain ⟨k, -, hmem⟩ := List.mem_flatMap.mp h
  rcases List.mem_cons.mp hmem with rfl | hsynonym
  · exact isTrimmed_name k
  · exact isTrimmed_of_mem_synonyms hsynonym

/-- **The two notations of synonyms agree.** Words without semicolons, none of them blank or with
blanks at its ends, are the synonyms under a name if that is bound to the array of them, and also if
it is bound to the text in which they are joined by semicolons, with any blanks around each of them
and any blank entries; the same padding may be in the array. And whatever value a name is bound to,
no synonym is blank or has blanks at its ends. -/
theorem synonyms_spec (b : Bindings) (name : Text) :
    (∀ words : List Text, (∀ word ∈ words, IsTrimmed word ∧ ';' ∉ word) →
      (b.set name (.array (words.map .string))).synonyms name = words
        ∧ ∀ entries, Padded words entries →
          (b.set name (.string (join [';'] entries))).synonyms name = words
            ∧ (b.set name (.array (entries.map .string))).synonyms name = words)
      ∧ ∀ value, ∀ synonym ∈ (b.set name value).synonyms name, IsTrimmed synonym := by
  constructor
  · intro words hwords
    have htrimmed : ∀ word ∈ words, IsTrimmed word := fun word hword => (hwords word hword).1
    simp only [synonyms_set]
    refine ⟨listed_array_of_padded (padded_self words) htrimmed, fun entries hpadded => ?_⟩
    exact ⟨listed_string_of_padded hpadded hwords, listed_array_of_padded hpadded htrimmed⟩
  · exact fun value synonym => isTrimmed_of_mem_synonyms

/-- Entries of one and of two words, blanks of several kinds around them, and blank entries at both
ends and between them. -/
theorem synonyms_spec_padded :
    let words := ["Provided that".toList, "Assume".toList]
    let entries := [[], "\tProvided that\u2003".toList, " ".toList, "Assume".toList, "\n".toList]
    (∀ word ∈ words, IsTrimmed word ∧ ';' ∉ word) ∧ Padded words entries
      ∧ join [';'] entries = ";\tProvided that\u2003; ;Assume;\n".toList
      ∧ (Bindings.empty.set "Given".toList (.string (join [';'] entries))).synonyms "Given".toList =
        words
      ∧ (Bindings.empty.set "Given".toList (.array (words.map .string))).synonyms "Given".toList =
        words := by
  intro words entries
  have hwords : ∀ word ∈ words, IsTrimmed word ∧ ';' ∉ word := by decide
  have hpadded : Padded words entries :=
    .blank rfl (.word ['\t'] _ ['\u2003'] rfl rfl
      (.blank rfl (.word [] _ [] rfl rfl (.blank rfl .nil))))
  obtain ⟨harray, hentries⟩ := (synonyms_spec .empty "Given".toList).1 words hwords
  exact ⟨hwords, hpadded, rfl, (hentries entries hpadded).1, harray⟩

end StepPhrase.Bindings
