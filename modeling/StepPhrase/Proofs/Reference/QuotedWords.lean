import StepPhrase.Proofs.Reference.Quoted
import StepPhrase.Proofs.Text.Words

/-!
# Quoting word by word

`quoteWords` takes a text from blank to blank. What it does to a whole text is what it does to each
word by itself, and the blanks stay where they are. A word in quotes begins with a quote, so it is
no reference any more, and quoting again changes nothing.

A text is a first word and pairs of a blank and a word, where words may be empty; in this form
blanks side by side and blanks at the ends are no special cases. The theorem is an induction over
the pairs.

* **`quoteWords_text`** — the text is quoted word by word.
* **`quoteWords_spec`** — which words these are, which of them get quotes, and that once is enough.
-/

namespace StepPhrase.Reference

open Text (Spaced)

/-- A reference to a simple name, as it is written. There is nothing in front of it or behind, and
its name has word characters and points only. -/
def IsSimple (word : Text) : Prop :=
  ∃ name, word = written name ∧ ∀ c ∈ name, isNameCharacter c = true

variable {word : Text}

theorem quoteWord_of_isSimple (h : IsSimple word) : quoteWord word = '\'' :: (word ++ ['\'']) :=
  if_pos (isBare_iff.mpr h)

theorem quoteWord_of_not_isSimple (h : ¬IsSimple word) : quoteWord word = word :=
  if_neg fun hbare => h (isBare_iff.mp hbare)

theorem quoteWord_quoteWord (word : Text) : quoteWord (quoteWord word) = quoteWord word := by
  by_cases h : IsSimple word
  · refine quoteWord_of_not_isSimple ?_
    rw [quoteWord_of_isSimple h]
    rintro ⟨name, heq, -⟩
    cases heq
  · rw [quoteWord_of_not_isSimple h, quoteWord_of_not_isSimple h]

/-- Quotes put no blank into a word. -/
theorem isWhiteSpace_of_mem_quoteWord (h : ∀ c ∈ word, Unicode.isWhiteSpace c = false) :
    ∀ c ∈ quoteWord word, Unicode.isWhiteSpace c = false := by
  -- only two marks are added, if anything
  by_cases hsimple : IsSimple word
  · rw [quoteWord_of_isSimple hsimple]
    intro c hc
    simp only [List.mem_cons, List.mem_append, List.not_mem_nil, or_false] at hc
    rcases hc with rfl | hc | rfl
    · decide
    · exact h c hc
    · decide
  · rwa [quoteWord_of_not_isSimple hsimple]

/-- A word as it is after quoting. -/
def quotedWord (word : Spaced.Word) : Spaced.Word :=
  ⟨quoteWord word.1, isWhiteSpace_of_mem_quoteWord word.2⟩

theorem quoteWords_word (word : Spaced.Word) : quoteWords word.1 = (quotedWord word).1 := by
  rw [quoteWords, quoteFrom_of_word word.2]
  rfl

/-- **A text is quoted word by word**, and its blanks are the same blanks as before. -/
theorem quoteWords_text (s : Spaced) : quoteWords s.text = (s.map quotedWord).text := by
  obtain ⟨first, rest⟩ := s
  induction rest generalizing first with
  | nil =>
    rw [Spaced.text_nil, quoteWords_word]
    exact Spaced.text_nil.symm
  | cons p rest ih =>
    obtain ⟨blank, word⟩ := p
    rw [Spaced.text_cons, quoteWords_append blank.2, quoteWords_word, ih]
    rfl

theorem map_quotedWord_map (s : Spaced) : (s.map quotedWord).map quotedWord = s.map quotedWord := by
  have hword : ∀ word, quotedWord (quotedWord word) = quotedWord word := fun word =>
    Subtype.ext (quoteWord_quoteWord word.1)
  simp [Spaced.map, hword]

theorem quoteWords_quoteWords (t : Text) : quoteWords (quoteWords t) = quoteWords t := by
  rw [← Spaced.text_ofText t, quoteWords_text, quoteWords_text, map_quotedWord_map]

/-- **References that are words of their own get quotes, and nothing else changes.** There is one
way to take a text apart at its blanks, and the words in it are the stretches from blank to blank.
The quoted text has the same blanks, and between them, in the same order, the words: in single
quotes if the word is a reference to a simple name, and else as they are. Quoting it again changes
nothing. -/
theorem quoteWords_spec (t : Text) :
    ∃ s : Spaced, s.text = t
      ∧ (∀ other : Spaced, other.text = t → other = s)
      ∧ (∀ word : Spaced.Word, word ∈ s.words ↔
          ∃ before after, Spaced.IsBetweenBlanks t before word.1 after)
      ∧ quoteWords t = (s.map quotedWord).text
      ∧ (∀ word ∈ s.words, IsSimple word.1 → (quotedWord word).1 = '\'' :: (word.1 ++ ['\'']))
      ∧ (∀ word ∈ s.words, ¬IsSimple word.1 → quotedWord word = word)
      ∧ (quoteWords t).filter Unicode.isWhiteSpace = t.filter Unicode.isWhiteSpace
      ∧ quoteWords (quoteWords t) = quoteWords t := by
  have hquoted : quoteWords t = ((Spaced.ofText t).map quotedWord).text := by
    rw [← quoteWords_text, Spaced.text_ofText]
  refine ⟨.ofText t, Spaced.text_ofText t, fun other => Spaced.eq_ofText_of_text,
    fun word => ?_, hquoted, fun word _ => quoteWord_of_isSimple,
    fun word _ hword => Subtype.ext (quoteWord_of_not_isSimple hword), ?_,
    quoteWords_quoteWords t⟩
  · rw [Spaced.mem_words_iff, Spaced.text_ofText]
  · rw [hquoted, Spaced.filter_text, ← Spaced.text_ofText t, Spaced.filter_text, Spaced.text_ofText]
    simp [Spaced.map]

/-- Blanks of several kinds, a reference with quotes already, one inside another word, one without a
name, and one with a name that is not simple. -/
theorem quoteWords_spec_blanks :
    quoteWords "$\x7ba.b\x7d\u2003\t '$\x7bx\x7d' =$\x7by\x7d $\x7b\x7d\n$\x7ba-b\x7d".toList =
        "'$\x7ba.b\x7d'\u2003\t '$\x7bx\x7d' =$\x7by\x7d '$\x7b\x7d'\n$\x7ba-b\x7d".toList
      ∧ quoteWords "'$\x7ba.b\x7d'\u2003\t '$\x7bx\x7d' =$\x7by\x7d '$\x7b\x7d'\n$\x7ba-b\x7d".toList =
        "'$\x7ba.b\x7d'\u2003\t '$\x7bx\x7d' =$\x7by\x7d '$\x7b\x7d'\n$\x7ba-b\x7d".toList := by
  have hquoted : quoteWords
    "$\x7ba.b\x7d\u2003\t '$\x7bx\x7d' =$\x7by\x7d $\x7b\x7d\n$\x7ba-b\x7d".toList =
      "'$\x7ba.b\x7d'\u2003\t '$\x7bx\x7d' =$\x7by\x7d '$\x7b\x7d'\n$\x7ba-b\x7d".toList := by
    decide +kernel
  obtain ⟨-, -, -, -, -, -, -, -, htwice⟩ :=
    quoteWords_spec "$\x7ba.b\x7d\u2003\t '$\x7bx\x7d' =$\x7by\x7d $\x7b\x7d\n$\x7ba-b\x7d".toList
  rw [hquoted] at htwice
  exact ⟨hquoted, htwice⟩

end StepPhrase.Reference
