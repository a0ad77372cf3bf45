import Mathlib.Data.List.DropRight
import StepPhrase.Text

/-!
# Trimming

What is left of a text without the blanks at its ends either is empty or begins and ends with other
characters (`isTrimmed_trim`), and blanks put around such a text are taken off again
(`trim_append`).

Keywords and synonyms are trimmed when they are read, and it is used that they have no blank at
their ends: what follows a keyword can only be told from it if the keyword does not go on with
blanks.
-/

namespace StepPhrase.Text

/-- A text that has characters, with no blank at its front and none at its end. -/
structure IsTrimmed (t : Text) : Prop where
  ne_nil : t ≠ []
  isWhiteSpace_of_mem_head? : ∀ c ∈ t.head?, Unicode.isWhiteSpace c = false
  isWhiteSpace_of_mem_getLast? : ∀ c ∈ t.getLast?, Unicode.isWhiteSpace c = false

variable {t before after : Text}

theorem isTrimmed_of_forall (hne : t ≠ []) (h : ∀ c ∈ t, Unicode.isWhiteSpace c = false) :
    IsTrimmed t :=
  ⟨hne, fun c hc => h c (List.mem_of_mem_head? hc), fun c hc => h c (List.mem_of_getLast? hc)⟩

theorem isWhiteSpace_of_mem_head?_dropWhile {c : Char}
    (h : c ∈ (t.dropWhile Unicode.isWhiteSpace).head?) :
    Unicode.isWhiteSpace c = false := by
  have hnot := List.head?_dropWhile_not Unicode.isWhiteSpace t
  rw [Option.mem_def.mp h] at hnot
  simpa using hnot

theorem exists_append_trim (t : Text) :
    ∃ blanks, t.dropWhile Unicode.isWhiteSpace = trim t ++ blanks := by
  obtain ⟨blanks, hblanks⟩ :=
    List.rdropWhile_prefix Unicode.isWhiteSpace (l := t.dropWhile Unicode.isWhiteSpace)
  exact ⟨blanks, hblanks.symm⟩

theorem isWhiteSpace_of_mem_isBlank (h : isBlank t = true) :
    ∀ c ∈ t, Unicode.isWhiteSpace c = true :=
  List.all_eq_true.mp h

theorem trim_of_isBlank (h : isBlank t = true) : trim t = [] := by
  rw [trim, List.dropWhile_eq_nil_iff.mpr (isWhiteSpace_of_mem_isBlank h)]
  rfl

/-- **What is left is empty or has other characters at its ends.** Taking blanks off the front
leaves the end as it is, unless nothing is left at all. -/
theorem isTrimmed_trim (h : trim t ≠ []) : IsTrimmed (trim t) := by
  refine ⟨h, fun c hc => ?_, fun c hc => ?_⟩
  · obtain ⟨blanks, hblanks⟩ := exists_append_trim t
    refine isWhiteSpace_of_mem_head?_dropWhile (t := t) ?_
    rwa [hblanks, List.head?_append_of_ne_nil _ h]
  · rw [trim, List.getLast?_reverse] at hc
    exact isWhiteSpace_of_mem_head?_dropWhile hc

theorem IsTrimmed.reverse (h : IsTrimmed t) : IsTrimmed t.reverse := by
  refine ⟨by simpa using h.ne_nil, ?_, ?_⟩
  · simpa using h.isWhiteSpace_of_mem_getLast?
  · simpa using h.isWhiteSpace_of_mem_head?

theorem IsTrimmed.dropWhile_append (h : IsTrimmed t) (hbefore : isBlank before = true)
    (after : Text) :
    (before ++ (t ++ after)).dropWhile Unicode.isWhiteSpace = t ++ after := by
  obtain ⟨c, rest, rfl⟩ := List.exists_cons_of_ne_nil h.ne_nil
  have hc := h.isWhiteSpace_of_mem_head? c rfl
  rw [List.dropWhile_append_of_pos (isWhiteSpace_of_mem_isBlank hbefore), List.cons_append,
    List.dropWhile_cons_of_neg (by simp [hc])]

/-- **Blanks around a text are taken off again**, and no more than these if the text has none at its
ends. -/
theorem IsTrimmed.trim_append (h : IsTrimmed t) (hbefore : isBlank before = true)
    (hafter : isBlank after = true) :
    trim (before ++ (t ++ after)) = t := by
  have hblank : isBlank after.reverse = true := by simpa [isBlank] using hafter
  have hback := h.reverse.dropWhile_append hblank []
  rw [List.append_nil] at hback
  rw [trim, h.dropWhile_append hbefore, List.reverse_append, hback, List.reverse_reverse]

theorem IsTrimmed.trim_eq (h : IsTrimmed t) : trim t = t := by
  have hsame : trim ([] ++ (t ++ [])) = t := h.trim_append rfl rfl
  rwa [List.nil_append, List.append_nil] at hsame

theorem isTrimmed_iff : IsTrimmed t ↔ t ≠ [] ∧ trim t = t := by
  constructor
  · exact fun h => ⟨h.ne_nil, h.trim_eq⟩
  · rintro ⟨hne, heq⟩
    rw [← heq] at hne ⊢
    exact isTrimmed_trim hne

instance (t : Text) : Decidable (IsTrimmed t) := decidable_of_iff _ isTrimmed_iff.symm

end StepPhrase.Text
