import Mathlib.Data.List.Basic
import StepPhrase.Text

/-!
# Words and blanks

Taken apart at its blanks, a text is a word, and then a blank and a word again and again. Words may
be empty, so every text can be taken apart, and in one way only.

Carrying the blanks along makes this a bijection, so that a statement about a text can be proved by
induction over its words and nothing is lost on the way.

* **`Spaced`** — words with single blanks between them; `Spaced.ofText` and `Spaced.text` are
  inverse to each other.
* **`Spaced.mem_words_iff`** — the words are the stretches of the text that reach from blank to
  blank, so those that are not empty are the longest ones without a blank.
-/

namespace StepPhrase.Text

namespace Spaced

/-- A text without blanks, which may be empty. -/
abbrev Word := { word : Text // ∀ c ∈ word, Unicode.isWhiteSpace c = false }

/-- A blank character. -/
abbrev Blank := { c : Char // Unicode.isWhiteSpace c = true }

end Spaced

/-- A word, and then blanks with one word behind each. Words may be empty, so every text can be read
in this way, and in one way only. -/
@[ext] structure Spaced where
  first : Spaced.Word
  rest : List (Spaced.Blank × Spaced.Word)

namespace Spaced

/-- The words, in order. -/
def words (s : Spaced) : List Word := s.first :: s.rest.map Prod.snd

/-- The text that the words and the blanks make. -/
def text (s : Spaced) : Text := s.first.1 ++ s.rest.flatMap fun (blank, word) => blank.1 :: word.1

/-- The same blanks, with other words. -/
def map (f : Word → Word) (s : Spaced) : Spaced :=
  ⟨f s.first, s.rest.map fun (blank, word) => (blank, f word)⟩

/-- Two texts with a blank between them. -/
def join (s : Spaced) (blank : Blank) (s' : Spaced) : Spaced :=
  ⟨s.first, s.rest ++ (blank, s'.first) :: s'.rest⟩

/-- The words and the blanks of a text. -/
def ofText : Text → Spaced
  | [] => ⟨⟨[], by simp⟩, []⟩
  | c :: t =>
    if h : Unicode.isWhiteSpace c = true then
      ⟨⟨[], by simp⟩, (⟨c, h⟩, (ofText t).first) :: (ofText t).rest⟩
    else ⟨⟨c :: (ofText t).first.1,
      List.forall_mem_cons.mpr ⟨by simpa using h, (ofText t).first.2⟩⟩, (ofText t).rest⟩

variable {s : Spaced} {first word : Word} {blank : Blank} {rest : List (Blank × Word)} {t : Text}

/-! ## Every text, in one way

A blank ends a word and begins another; any other character belongs to the word at the front. -/

@[simp] theorem text_nil : (mk first []).text = first.1 := by simp [text]

@[simp] theorem text_cons :
    (mk first ((blank, word) :: rest)).text = first.1 ++ blank.1 :: (mk word rest).text := rfl

theorem text_join (s : Spaced) (blank : Blank) (s' : Spaced) :
    (s.join blank s').text = s.text ++ blank.1 :: s'.text := by
  simp [text, join]

@[simp] theorem text_ofText (t : Text) : (ofText t).text = t := by
  induction t with
  | nil => rfl
  | cons c t ih =>
    rw [text] at ih
    rw [ofText]
    split
    · simp [text, ih]
    · simp [text, ih]

/-- **Words and blanks are found again in the text that they make**, so there is one way to take it
apart. By induction on the text, with the first word going on or ending. -/
theorem eq_ofText_of_text (h : s.text = t) : s = ofText t := by
  obtain ⟨⟨word, hword⟩, rest⟩ := s
  induction t generalizing word rest with
  | nil =>
    cases rest with
    | nil =>
      obtain rfl : word = [] := by simpa using h
      rfl
    | cons p rest => simp [text] at h
  | cons c t ih =>
    cases word with
    | cons d word =>
      -- the first word goes on
      obtain ⟨hd, hword'⟩ := List.forall_mem_cons.mp hword
      obtain ⟨rfl, htext⟩ := List.cons.inj h
      have hrest := ih rest word hword' htext
      rw [ofText, dif_neg (by simp [hd])]
      simp only [← hrest]
    | nil =>
      -- it ends at a blank, and the next one begins
      cases rest with
      | nil => simp at h
      | cons p rest =>
        obtain ⟨⟨d, hd⟩, next⟩ := p
        obtain ⟨rfl, htext⟩ := List.cons.inj h
        have hrest := ih rest next.1 next.2 htext
        rw [ofText, dif_pos hd]
        simp only [← hrest]

@[simp] theorem ofText_text (s : Spaced) : ofText s.text = s := (eq_ofText_of_text rfl).symm

/-- The blanks of the text are the blanks between the words. -/
theorem filter_text (s : Spaced) :
    s.text.filter Unicode.isWhiteSpace = s.rest.map fun p => p.1.1 := by
  obtain ⟨first, rest⟩ := s
  have hnone : ∀ word : Word, word.1.filter Unicode.isWhiteSpace = [] := fun word =>
    List.filter_eq_nil_iff.mpr fun c hc => by simp [word.2 c hc]
  induction rest generalizing first with
  | nil => rw [text_nil, hnone, List.map_nil]
  | cons p rest ih =>
    obtain ⟨blank, word⟩ := p
    rw [text_cons, List.filter_append, hnone, List.nil_append, List.filter_cons_of_pos blank.2, ih,
      List.map_cons]

/-! ## From blank to blank

Two texts with a blank between them have the words of both. So a stretch from blank to blank is a
word if it is one at the front of what begins there. -/

/-- A stretch of a text that reaches from a blank, or from the front, to a blank, or to the end. It
may have blanks in it as far as this goes. -/
structure IsBetweenBlanks (t before word after : Text) : Prop where
  eq_append : t = before ++ (word ++ after)
  getLast?_before : ∀ c ∈ before.getLast?, Unicode.isWhiteSpace c = true
  head?_after : ∀ c ∈ after.head?, Unicode.isWhiteSpace c = true

theorem mem_words_join {s' : Spaced} :
    word ∈ (s.join blank s').words ↔ word ∈ s.words ∨ word ∈ s'.words := by
  simp [words, join, or_assoc]

/-- What reaches from the front of a text to a blank, or to the end, is a word of it. -/
theorem mem_words_of_after {after : Text}
    (hafter : ∀ c ∈ after.head?, Unicode.isWhiteSpace c = true) :
    word ∈ (ofText (word.1 ++ after)).words := by
  cases after with
  | nil =>
    rw [List.append_nil, ← eq_ofText_of_text (s := ⟨word, []⟩) text_nil]
    exact List.mem_cons_self
  | cons c after =>
    have htext : (Spaced.join ⟨word, []⟩ ⟨c, hafter c rfl⟩ (ofText after)).text =
        word.1 ++ c :: after := by
      rw [text_join, text_nil, text_ofText]
    rw [← eq_ofText_of_text htext]
    exact List.mem_cons_self

/-- **The words of a text are what stands between its blanks.** A word may be empty, where two
blanks stand side by side or one stands at an end. -/
theorem mem_words_iff :
    word ∈ s.words ↔ ∃ before after, IsBetweenBlanks s.text before word.1 after := by
  constructor
  · intro h
    obtain ⟨first, rest⟩ := s
    induction rest generalizing first with
    | nil =>
      obtain rfl : word = first := by simpa [words] using h
      exact ⟨[], [], by simp, by simp, by simp⟩
    | cons p rest ih =>
      obtain ⟨blank, next⟩ := p
      rcases List.mem_cons.mp h with rfl | h
      · exact ⟨[], blank.1 :: (mk next rest).text, rfl, by simp, by simp [blank.2]⟩
      · obtain ⟨before, after, heq, hbefore, hafter⟩ := ih next h
        refine ⟨first.1 ++ blank.1 :: before, after, ?_, ?_, hafter⟩
        · rw [text_cons, heq, List.append_assoc, List.cons_append]
        · cases hlast : before.getLast? with
          | none => simp [List.getLast?_cons, hlast, blank.2]
          | some c => simpa [List.getLast?_cons, hlast] using hbefore c hlast
  · rintro ⟨before, after, heq, hbefore, hafter⟩
    have hword : word ∈ (ofText (word.1 ++ after)).words := mem_words_of_after hafter
    rcases List.eq_nil_or_concat' before with rfl | ⟨front, c, rfl⟩
    · rwa [← ofText_text s, heq, List.nil_append]
    · have hblank : Unicode.isWhiteSpace c = true := hbefore c (by simp)
      -- the text is cut at the blank in front of the stretch
      have htext : (Spaced.join (ofText front) ⟨c, hblank⟩ (ofText (word.1 ++ after))).text =
          s.text := by
        rw [text_join, text_ofText, text_ofText, heq, List.append_assoc, List.singleton_append]
      rw [← ofText_text s, ← eq_ofText_of_text htext]
      exact mem_words_join.mpr (.inr hword)

end Spaced

end StepPhrase.Text
