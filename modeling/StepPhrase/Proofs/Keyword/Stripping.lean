import StepPhrase.Proofs.Keyword.Synonyms
import StepPhrase.Proofs.Template.Alternation
import StepPhrase.Proofs.Text.CaseVariants

/-!
# Taking a keyword off

A text that is led by a keyword consists of the keyword in some case, the blanks behind it and a
rest. `Keyword.strip?` takes off the first entry of the list that leads a text, and all of the
blanks.

The entry that is taken off is chosen before it is known what it leaves. Of two entries one of which
is the beginning of the other, the one that comes first wins if a blank follows it; which one is
longer does not count.

* **`IsLed`** — the parts of a text that a keyword leads; `dropWithBlanks?_eq_some_iff` says that
  they are what is taken off and what is left.
* **`strip?_eq_bind`** — it is the first entry in the list that is taken off, not the longest.
* **`getLast?_of_mem_keywords`** — no entry ends with a blank, so it is clear where its blanks
  begin.
* **`withoutKeyword_eq_or_isLed`** — what this does to a template; `Template.gap` has the blanks
  that go with the keyword.
-/

namespace StepPhrase

open Text

namespace Keyword

variable {engine : Engine} {keyword t front gap rest : Text}

/-! ## Texts that a keyword leads

The three parts are determined by the keyword and the text: the front is as long as the keyword, and
the blanks end where the first character follows that is none. -/

/-- A text consists of a keyword, blanks and a rest that begins with none. So all blanks behind the
keyword are in the gap, and there is at least one. -/
structure IsLed (keyword t front gap rest : Text) : Prop where
  eq_append : t = front ++ (gap ++ rest)
  sameBy : SameBy sameFolded keyword front
  gap_ne_nil : gap ≠ []
  isWhiteSpace_of_mem_gap : ∀ c ∈ gap, Unicode.isWhiteSpace c = true
  head?_rest : ∀ c ∈ rest.head?, Unicode.isWhiteSpace c = false

theorem IsLed.takeWhile_eq (h : IsLed keyword t front gap rest) :
    (gap ++ rest).takeWhile Unicode.isWhiteSpace = gap := by
  rw [List.takeWhile_append_of_pos h.isWhiteSpace_of_mem_gap]
  cases rest with
  | nil => simp
  | cons c rest =>
    have hc := h.head?_rest c rfl
    rw [List.takeWhile_cons_of_neg (by simp [hc]), List.append_nil]

theorem IsLed.dropWhile_eq (h : IsLed keyword t front gap rest) :
    rest.dropWhile Unicode.isWhiteSpace = rest := by
  cases rest with
  | nil => rfl
  | cons c rest =>
    have hc := h.head?_rest c rfl
    rw [List.dropWhile_cons_of_neg (by simp [hc])]

/-- **What is taken off is the keyword with its blanks**, all of them, so what is left does not
begin with another one. -/
theorem dropWithBlanks?_eq_some_iff :
    dropWithBlanks? t keyword = some rest ↔ ∃ front gap, IsLed keyword t front gap rest := by
  unfold dropWithBlanks?
  constructor
  · intro h
    split at h
    · next blank behind hdrop =>
      split at h
      · next hblank =>
        obtain ⟨front, rfl, hsame⟩ := dropLiteral?_eq_some_iff.mp hdrop
        refine ⟨front, blank :: behind.takeWhile Unicode.isWhiteSpace, ?_, hsame, by simp, ?_, ?_⟩
        · rw [← Option.some.inj h, List.cons_append, List.takeWhile_append_dropWhile]
        · intro c hc
          rcases List.mem_cons.mp hc with rfl | hc
          · exact hblank
          · exact List.all_eq_true.mp List.all_takeWhile c hc
        · intro c hc
          rw [← Option.some.inj h] at hc
          exact isWhiteSpace_of_mem_head?_dropWhile hc
      · cases h
    · cases h
  · rintro ⟨front, gap, h⟩
    -- the first blank is asked for behind the keyword, the others are dropped after that
    obtain ⟨blank, blanks, rfl⟩ := List.exists_cons_of_ne_nil h.gap_ne_nil
    obtain ⟨hblank, hblanks⟩ := List.forall_mem_cons.mp h.isWhiteSpace_of_mem_gap
    have hdrop : drop? keyword t = some (blank :: (blanks ++ rest)) :=
      dropLiteral?_eq_some_iff.mpr ⟨front, h.eq_append, h.sameBy⟩
    rw [hdrop]
    simp only [hblank, if_true]
    rw [List.dropWhile_append_of_pos hblanks, h.dropWhile_eq]

/-- A keyword leads a text exactly if a blank follows it there. How many more blanks there are makes
no difference to that. -/
theorem isSome_dropWithBlanks?_iff :
    (dropWithBlanks? t keyword).isSome = true ↔
      ∃ front blank behind, t = front ++ blank :: behind ∧ SameBy sameFolded keyword front
        ∧ Unicode.isWhiteSpace blank = true := by
  unfold dropWithBlanks?
  constructor
  · intro h
    split at h
    · next blank behind hdrop =>
      split at h
      · next hblank =>
        obtain ⟨front, heq, hsame⟩ := dropLiteral?_eq_some_iff.mp hdrop
        exact ⟨front, blank, behind, heq, hsame, hblank⟩
      · cases h
    · cases h
  · rintro ⟨front, blank, behind, heq, hsame, hblank⟩
    have hdrop : drop? keyword t = some (blank :: behind) :=
      dropLiteral?_eq_some_iff.mpr ⟨front, heq, hsame⟩
    rw [hdrop]
    simp only [hblank, if_true, Option.isSome_some]

theorem dropWithBlanks?_eq_none_iff :
    dropWithBlanks? t keyword = none ↔
      ∀ front blank behind, t = front ++ blank :: behind → SameBy sameFolded keyword front →
        Unicode.isWhiteSpace blank = false := by
  rw [← Option.not_isSome_iff_eq_none, isSome_dropWithBlanks?_iff]
  simp

/-- The first entry that leads a text, whether or not the engine compiles the expression that finds
it. -/
def leader? (keywords : List Text) (t : Text) : Option Text :=
  keywords.find? fun keyword => (dropWithBlanks? t keyword).isSome

/-- **The first entry that leads a text is taken off**, if the engine compiles the expression for
the entries. -/
theorem strip?_eq_bind {keywords : List Text}
    (hcompiles : engine.compiles (.stripping keywords) = true) :
    strip? engine keywords t = (leader? keywords t).bind (dropWithBlanks? t) := by
  rw [strip?, if_pos hcompiles, leader?]
  clear hcompiles
  -- both go through the list to the first entry that leads the text
  induction keywords with
  | nil => rfl
  | cons keyword keywords ih =>
    rw [List.findSome?_cons, List.find?_cons, ih]
    cases hdrop : dropWithBlanks? t keyword with
    | none => rfl
    | some rest => exact hdrop.symm

theorem exists_leader?_of_strip? {keywords : List Text} (h : strip? engine keywords t = some rest) :
    ∃ keyword, leader? keywords t = some keyword ∧ dropWithBlanks? t keyword = some rest := by
  have hcompiles : engine.compiles (.stripping keywords) = true := by
    by_contra hcompiles
    rw [strip?, if_neg hcompiles] at h
    cases h
  rw [strip?_eq_bind hcompiles] at h
  exact Option.bind_eq_some_iff.mp h

theorem exists_leader? {keywords : List Text} {entry : Text} (hentry : entry ∈ keywords)
    (h : (dropWithBlanks? t entry).isSome = true) :
    ∃ keyword, leader? keywords t = some keyword := by
  have hsome : (leader? keywords t).isSome = true := List.find?_isSome.mpr ⟨entry, hentry, h⟩
  exact Option.isSome_iff_exists.mp hsome

theorem leader?_eq_some {keywords : List Text} (h : leader? keywords t = some keyword) :
    keyword ∈ keywords ∧ ∃ front gap rest, IsLed keyword t front gap rest := by
  have hsome : (dropWithBlanks? t keyword).isSome = true := by
    simpa using List.find?_some h
  obtain ⟨rest, hrest⟩ := Option.isSome_iff_exists.mp hsome
  obtain ⟨front, gap, hled⟩ := dropWithBlanks?_eq_some_iff.mp hrest
  exact ⟨List.mem_of_find?_eq_some h, front, gap, rest, hled⟩

end Keyword

/-! ## Entries

Keywords come trimmed from the properties, which is what makes it possible to tell a keyword from
the blanks behind it. If one ended with a blank, that blank could belong to either. -/

/-- **No keyword ends with a blank.** -/
theorem Bindings.getLast?_of_mem_keywords {b : Bindings} {keyword : Text}
    (h : keyword ∈ b.keywords) :
    ∃ front last, keyword = front ++ [last] ∧ Unicode.isWhiteSpace last = false := by
  have htrimmed := isTrimmed_of_mem_keywords h
  rcases List.eq_nil_or_concat' keyword with hnil | ⟨front, last, rfl⟩
  · exact absurd hnil htrimmed.ne_nil
  · exact ⟨front, last, rfl, htrimmed.isWhiteSpace_of_mem_getLast? last (by simp)⟩

/-- So where a keyword and a blank are taken for another front and its blanks, there is one blank.
-/
theorem eq_singleton_of_append_eq {keyword front gap other : Text} {blank : Char}
    (hends : ∃ front last, keyword = front ++ [last] ∧ Unicode.isWhiteSpace last = false)
    (hsame : SameBy sameFolded keyword other) (heq : other ++ [blank] = front ++ gap)
    (hne : gap ≠ []) (hgap : ∀ c ∈ gap, Unicode.isWhiteSpace c = true) :
    other = front ∧ gap = [blank] := by
  -- the last blank is the one in front of the end; there are no others if the front is the keyword
  obtain ⟨blanks, x, rfl⟩ : ∃ blanks x, gap = blanks ++ [x] := by
    rcases List.eq_nil_or_concat' gap with hnil | ⟨blanks, x, hgap⟩
    · exact absurd hnil hne
    · exact ⟨blanks, x, hgap⟩
  rw [← List.append_assoc] at heq
  obtain ⟨rfl, hx⟩ := List.append_inj' heq rfl
  rcases List.eq_nil_or_concat' blanks with hnil | ⟨blanks', y, hblanks⟩
  · rw [hnil, List.append_nil, List.nil_append]
    exact ⟨rfl, hx.symm⟩
  · -- a blank at the end of the front would be the last character of the keyword
    obtain ⟨k, last, rfl, hlast⟩ := hends
    rw [hblanks, ← List.append_assoc] at hsame
    obtain ⟨u, w, hsplit, -, hw⟩ := sameBy_append_iff.mp hsame
    obtain ⟨-, hy⟩ := List.append_inj' hsplit hw.length_eq
    have hblank : Unicode.isWhiteSpace y = true := hgap y (by simp [hblanks])
    rw [← hy] at hw
    cases hw with
    | cons hfold _ =>
      rw [sameFolded_iff] at hfold
      rw [eq_of_sameFolded_of_isWhiteSpace hblank (sameFolded_iff.mpr hfold.symm), hlast] at hblank
      cases hblank

section KeywordAndBlank

variable {keyword lead entry front gap rest : Text}
  (hled : Keyword.IsLed entry (keyword ++ ' ' :: lead) front gap rest)

include hled

/-- Where a text is led by a keyword and a blank, an entry that is the same keyword leaves what is
behind the blank. -/
theorem rest_eq_of_sameBy (hlead : ∀ c ∈ lead.head?, Unicode.isWhiteSpace c = false)
    (hsame : SameBy sameFolded entry keyword) : rest = lead := by
  have hlength := hsame.length_eq.symm.trans hled.sameBy.length_eq
  obtain ⟨-, hbehind⟩ := List.append_inj hled.eq_append hlength
  -- led by the keyword the text has the one blank that was written
  have hled' : Keyword.IsLed keyword (keyword ++ ' ' :: lead) keyword [' '] lead :=
    ⟨rfl, sameBy_refl sameFolded_refl keyword, by simp,
    List.forall_mem_singleton.mpr (by decide), hlead⟩
  have hgap : gap = [' '] := by
    rw [← hled.takeWhile_eq, ← hbehind]
    exact hled'.takeWhile_eq
  rw [hgap, List.singleton_append] at hbehind
  exact (List.cons.inj hbehind).2.symm

/-- And an entry that leaves as much is the same keyword: what it took off is as long as keyword and
blank, and ends in one blank at least. -/
theorem sameBy_of_length_eq
    (hends : ∃ front last, keyword = front ++ [last] ∧ Unicode.isWhiteSpace last = false)
    (hlength : rest.length = lead.length) : SameBy sameFolded entry keyword := by
  have heq : (keyword ++ [' ']) ++ lead = (front ++ gap) ++ rest := by
    rw [List.append_assoc, List.append_assoc, List.singleton_append]
    exact hled.eq_append
  obtain ⟨hfront, -⟩ := List.append_inj' heq hlength.symm
  have hone := eq_singleton_of_append_eq hends (sameBy_refl sameFolded_refl keyword) hfront
    hled.gap_ne_nil hled.isWhiteSpace_of_mem_gap
  rw [hone.1]
  exact hled.sameBy

end KeywordAndBlank

/-! ## Templates

A template loses its keyword in its first literal. A literal that is nothing but keyword and blanks
is gone altogether, so that literals stay without empty ones among them. -/

namespace Template

open Keyword

/-- The blanks that are taken off a template together with its keyword. There are none if nothing is
taken off. -/
def gap (engine : Engine) (keywords : List Text) (template : Template) : Text :=
  match template.pieces with
  | .literal first :: _ =>
    match Keyword.strip? engine keywords first, leader? keywords first with
    | some _, some keyword => (first.drop keyword.length).takeWhile Unicode.isWhiteSpace
    | _, _ => []
  | _ => []

variable {keywords : List Text} {template : Template}

theorem pieces_withoutKeyword {first rest : Text} {pieces : List Piece}
    (hpieces : template.pieces = .literal first :: pieces)
    (hstrip : Keyword.strip? engine keywords first = some rest) :
    (template.withoutKeyword engine keywords).pieces =
      if rest = [] then pieces else .literal rest :: pieces := by
  rw [withoutKeyword, hpieces]
  simp only [hstrip]
  cases rest with
  | nil => rfl
  | cons c rest => rfl

theorem leadingLiteral_of_alternating {first rest : Text} {pieces : List Piece}
    (h : Alternating (.literal first :: pieces)) :
    Piece.leadingLiteral (if rest = [] then pieces else .literal rest :: pieces) = rest := by
  split
  · next hempty => rw [hempty, h.2.1]
  · rfl

theorem withoutKeyword_of_unled
    (h : ∀ keyword ∈ keywords,
      dropWithBlanks? (Piece.leadingLiteral template.pieces) keyword = none) :
    template.withoutKeyword engine keywords = template := by
  unfold withoutKeyword
  split
  · next first pieces hpieces =>
    have hnone : Keyword.strip? engine keywords first = none := by
      rw [hpieces] at h
      unfold Keyword.strip?
      split
      · exact List.findSome?_eq_none_iff.mpr h
      · rfl
    simp only [hnone]
  · rfl

/-- **A template without its keyword is the template itself, or its first literal is led by an entry
and only the rest of it is left.** -/
theorem withoutKeyword_eq_or_isLed (engine : Engine) (keywords : List Text) (template : Template) :
    (template.gap engine keywords = [] ∧ template.withoutKeyword engine keywords = template)
      ∨ ∃ keyword ∈ keywords, ∃ first front rest pieces, template.pieces = .literal first :: pieces
          ∧ IsLed keyword first front (template.gap engine keywords) rest
          ∧ (template.withoutKeyword engine keywords).pieces =
            if rest = [] then pieces else .literal rest :: pieces := by
  cases hpieces : template.pieces with
  | nil => exact Or.inl ⟨by rw [gap, hpieces], by rw [withoutKeyword, hpieces]⟩
  | cons piece pieces =>
    cases piece with
    | slot s => exact Or.inl ⟨by rw [gap, hpieces], by rw [withoutKeyword, hpieces]⟩
    | literal first =>
      cases hstrip : Keyword.strip? engine keywords first with
      | none =>
        refine Or.inl ⟨?_, ?_⟩
        · rw [gap, hpieces]
          simp only [hstrip]
        · rw [withoutKeyword, hpieces]
          simp only [hstrip]
      | some rest =>
        obtain ⟨keyword, hleader, hdrop⟩ := exists_leader?_of_strip? hstrip
        obtain ⟨front, blanks, hled⟩ := dropWithBlanks?_eq_some_iff.mp hdrop
        -- the blanks are found again behind as many characters as the keyword has
        have hgap : template.gap engine keywords = blanks := by
          rw [gap, hpieces]
          simp only [hstrip, hleader]
          rw [hled.eq_append, hled.sameBy.length_eq, List.drop_left, hled.takeWhile_eq]
        refine Or.inr ⟨keyword, (leader?_eq_some hleader).1, first, front, rest,
          pieces, rfl, ?_, ?_⟩
        · rw [hgap]
          exact hled
        · exact pieces_withoutKeyword hpieces hstrip

theorem isWhiteSpace_of_mem_gap :
    ∀ c ∈ template.gap engine keywords, Unicode.isWhiteSpace c = true := by
  rcases withoutKeyword_eq_or_isLed engine keywords template with ⟨hnil, -⟩ |
    ⟨_, -, _, _, _, _, -, hled, -⟩
  · simp [hnil]
  · exact hled.isWhiteSpace_of_mem_gap

end Template

end StepPhrase
