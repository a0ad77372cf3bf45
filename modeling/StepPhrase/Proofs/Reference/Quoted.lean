import StepPhrase.Reference.Quoted

/-!
# Words with quotes

`quoteWords` goes from blank to blank, and no name has a blank in it. So a reference that stands
behind a blank is a word if its name has none but name characters, and text without a dollar has no
such word.

What has been read of a word is kept in reverse until a blank ends it. So the text in front of a
blank is done when the blank comes, and what follows is read with nothing kept.

* **`isBare_iff`** — the words that get quotes.
* **`quoteWords_append`** — text on either side of a blank is quoted by itself.
* **`quoteWords_written`** — one reference behind a blank.
-/

namespace StepPhrase.Reference

variable {read front word name t : Text} {c blank : Char}

/-! ## Name characters

Blanks and name characters are two classes that have nothing in common, though the tables for them
were made apart. -/

theorem ne_of_isNameCharacter {d : Char} (hc : isNameCharacter c = true)
    (hd : isNameCharacter d = false) :
    c ≠ d := by
  rintro rfl
  cases hc.symm.trans hd

theorem not_isNameCharacter_of_isWhiteSpace (h : Unicode.isWhiteSpace c = true) :
    isNameCharacter c = false := by
  -- the few blanks are gone through, not the name characters
  have hblanks : (Unicode.whiteSpaceRanges.all fun range =>
      (List.range' range.1 (range.2 + 1 - range.1)).all fun code =>
        !isNameCharacter (Char.ofNat code)) = true := by
    decide +kernel
  obtain ⟨range, hrange, hc⟩ := List.any_eq_true.mp h
  rw [Bool.and_eq_true, decide_eq_true_eq, decide_eq_true_eq] at hc
  have hcode : c.toNat ∈ List.range' range.1 (range.2 + 1 - range.1) :=
    List.mem_range'_1.mpr ⟨hc.1, by omega⟩
  have hnot := List.all_eq_true.mp (List.all_eq_true.mp hblanks range hrange) _ hcode
  rwa [Char.ofNat_toNat, Bool.not_eq_true'] at hnot

theorem not_isWhiteSpace_of_isNameCharacter (h : isNameCharacter c = true) :
    Unicode.isWhiteSpace c = false := by
  refine Bool.eq_false_iff.mpr fun hblank => ?_
  cases h.symm.trans (not_isNameCharacter_of_isWhiteSpace hblank)

/-! ## Words

A word is looked at when it is complete. Whether it gets quotes depends on the word only. -/

/-- **The words that get quotes are references to simple names**: name characters in braces, with a
dollar in front and nothing behind. -/
theorem isBare_iff :
    isBare word = true ↔ ∃ name, word = written name ∧ ∀ c ∈ name, isNameCharacter c = true := by
  unfold isBare
  split
  · next t =>
    rw [Bool.and_eq_true, beq_iff_eq, List.all_eq_true, List.getLast?_eq_some_iff]
    constructor
    · rintro ⟨⟨name, rfl⟩, hname⟩
      exact ⟨name, rfl, by simpa using hname⟩
    · rintro ⟨name, heq, hname⟩
      obtain rfl : t = name ++ ['}'] := by simpa [written] using heq
      exact ⟨⟨name, rfl⟩, by simpa using hname⟩
  · next hother =>
    refine iff_of_false Bool.false_ne_true ?_
    rintro ⟨name, rfl, -⟩
    exact hother _ rfl

theorem quoteWord_of_dollar_not_mem (h : '$' ∉ word) : quoteWord word = word := by
  refine if_neg fun hbare => ?_
  obtain ⟨name, rfl, -⟩ := isBare_iff.mp hbare
  exact h List.mem_cons_self

theorem quoteFrom_append (hblank : Unicode.isWhiteSpace blank = true) (read front t : Text) :
    quoteFrom read (front ++ blank :: t) = quoteFrom read front ++ blank :: quoteWords t := by
  induction front generalizing read with
  | nil => rw [List.nil_append, quoteFrom, quoteFrom, if_pos hblank, quoteWords]
  | cons c front ih =>
    rw [List.cons_append, quoteFrom, quoteFrom, ih, ih]
    split
    · rw [List.append_assoc, List.cons_append]
    · rfl

/-- **Text on either side of a blank is quoted by itself**, since a word ends at the blank and none
has it inside. -/
theorem quoteWords_append (hblank : Unicode.isWhiteSpace blank = true) (front t : Text) :
    quoteWords (front ++ blank :: t) = quoteWords front ++ blank :: quoteWords t :=
  quoteFrom_append hblank [] front t

theorem quoteFrom_of_word (h : ∀ c ∈ word, Unicode.isWhiteSpace c = false) (read : Text) :
    quoteFrom read word = quoteWord (read.reverse ++ word) := by
  induction word generalizing read with
  | nil => rw [quoteFrom, List.append_nil]
  | cons c word ih =>
    obtain ⟨hc, hword⟩ := List.forall_mem_cons.mp h
    rw [quoteFrom, if_neg (by simp [hc]), ih hword, List.reverse_cons, List.append_assoc,
      List.singleton_append]

theorem quoteFrom_of_dollar_not_mem (hread : '$' ∉ read) (h : '$' ∉ t) :
    quoteFrom read t = read.reverse ++ t := by
  induction t generalizing read with
  | nil => rw [quoteFrom, quoteWord_of_dollar_not_mem (by simpa using hread), List.append_nil]
  | cons c t ih =>
    rw [List.mem_cons, not_or] at h
    rw [quoteFrom, quoteWord_of_dollar_not_mem (by simpa using hread)]
    split
    · rw [ih List.not_mem_nil h.2, List.reverse_nil, List.nil_append]
    · rw [ih (by simpa using ⟨h.1, hread⟩) h.2, List.reverse_cons, List.append_assoc,
        List.singleton_append]

theorem quoteWords_of_dollar_not_mem (h : '$' ∉ t) : quoteWords t = t :=
  quoteFrom_of_dollar_not_mem List.not_mem_nil h

/-- **A reference behind a blank gets quotes** if its name is simple. -/
theorem quoteWords_written (hfront : '$' ∉ front) (hblank : Unicode.isWhiteSpace blank = true)
    (hname : ∀ c ∈ name, isNameCharacter c = true) :
    quoteWords (front ++ blank :: written name) =
      front ++ blank :: '\'' :: (written name ++ ['\'']) := by
  have hword : ∀ c ∈ written name, Unicode.isWhiteSpace c = false := by
    intro c hc
    simp only [written, List.mem_cons, List.mem_append, List.not_mem_nil, or_false] at hc
    rcases hc with rfl | rfl | hc | rfl
    · decide
    · decide
    · exact not_isWhiteSpace_of_isNameCharacter (hname c hc)
    · decide
  rw [quoteWords_append hblank, quoteWords_of_dollar_not_mem hfront, quoteWords,
    quoteFrom_of_word hword, List.reverse_nil, List.nil_append, quoteWord,
    if_pos (isBare_iff.mpr ⟨name, rfl, hname⟩)]

end StepPhrase.Reference
