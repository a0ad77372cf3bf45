import Mathlib.Data.List.Forall2
import StepPhrase.Text.Caseless

/-!
# Occurrences of a literal

A literal is compared with a text character by character, under folding or under lower-casing. This
module says what the two searches of `StepPhrase.Text.Caseless` find:

The comparison is a parameter throughout. It need not be symmetric or transitive, and all that is
used of it for a search is that it is made character by character, so that what is found is as long
as what was looked for.

* **`SameBy`** — two texts of one length whose characters compare pairwise.
* **`dropLiteral?_eq_some_iff`** — reading a literal off the front takes off a text that is the
  same.
* **`IsFirstOccurrence`**, **`dropThrough?_eq_some_iff`** — a search stops behind the first text
  that is the same.
-/

namespace StepPhrase.Text

/-- The texts have the same length and the same characters as far as `same` can tell. In bytes they
may differ in length. -/
def SameBy (same : Char → Char → Bool) (s t : Text) : Prop :=
  List.Forall₂ (fun a b => same a b = true) s t

instance (same : Char → Char → Bool) (s t : Text) : Decidable (SameBy same s t) :=
  inferInstanceAs (Decidable (List.Forall₂ (fun a b => same a b = true) s t))

section SameBy

variable {same : Char → Char → Bool}

@[simp] theorem sameBy_nil : SameBy same [] [] := .nil

@[simp] theorem sameBy_nil_left_iff {t : Text} : SameBy same [] t ↔ t = [] :=
  List.forall₂_nil_left_iff

theorem SameBy.length_eq {s t : Text} (h : SameBy same s t) : s.length = t.length :=
  List.Forall₂.length_eq h

theorem SameBy.mono {other : Char → Char → Bool} {s t : Text}
    (hsame : ∀ a b, same a b = true → other a b = true) (h : SameBy same s t) : SameBy other s t :=
  List.Forall₂.imp (fun a b hab => hsame a b hab) h

theorem SameBy.append {s s' t t' : Text} (h : SameBy same s t) (h' : SameBy same s' t') :
    SameBy same (s ++ s') (t ++ t') := by
  induction h with
  | nil => exact h'
  | cons hc _ ih => exact .cons hc ih

/-- What is the same as two texts in a row has one part for each. -/
theorem sameBy_append_iff {s s' t : Text} :
    SameBy same (s ++ s') t ↔
      ∃ front back, t = front ++ back ∧ SameBy same s front ∧ SameBy same s' back := by
  constructor
  · intro h
    induction s generalizing t with
    | nil => exact ⟨[], t, rfl, .nil, h⟩
    | cons a s ih =>
      cases h with
      | cons hc hrest =>
        obtain ⟨front, back, rfl, hfront, hback⟩ := ih hrest
        exact ⟨_ :: front, back, rfl, .cons hc hfront, hback⟩
  · rintro ⟨front, back, rfl, hfront, hback⟩
    exact hfront.append hback

theorem sameBy_refl (hsame : ∀ a, same a a = true) (t : Text) : SameBy same t t := by
  induction t with
  | nil => exact .nil
  | cons c t ih => exact .cons (hsame c) ih

end SameBy

theorem sameFolded_iff {a b : Char} :
    sameFolded a b = true ↔ Unicode.foldCase a = Unicode.foldCase b := by
  unfold sameFolded
  rw [Bool.or_eq_true, beq_iff_eq, beq_iff_eq]
  exact ⟨fun h => h.elim (congrArg _) id, Or.inr⟩

theorem sameLowered_iff {a b : Char} :
    sameLowered a b = true ↔ Unicode.lowerCase a = Unicode.lowerCase b := by
  unfold sameLowered
  rw [Bool.or_eq_true, beq_iff_eq, beq_iff_eq]
  exact ⟨fun h => h.elim (congrArg _) id, Or.inr⟩

theorem sameFolded_refl (a : Char) : sameFolded a a = true := sameFolded_iff.mpr rfl

theorem sameLowered_refl (a : Char) : sameLowered a a = true := sameLowered_iff.mpr rfl

theorem sameBy_sameLowered_iff {s t : Text} :
    SameBy sameLowered s t ↔ s.map Unicode.lowerCase = t.map Unicode.lowerCase := by
  have hforms : SameBy sameLowered s t ↔
      List.Forall₂ (· = ·) (s.map Unicode.lowerCase) (t.map Unicode.lowerCase) := by
    simp only [SameBy, sameLowered_iff, List.forall₂_map_left_iff, List.forall₂_map_right_iff]
  rw [hforms, List.forall₂_eq_eq_eq]

theorem SameBy.lowered_common {s t u : Text} (h : SameBy sameLowered s t)
    (h' : SameBy sameLowered s u) :
    SameBy sameLowered t u := by
  rw [sameBy_sameLowered_iff] at h h' ⊢
  exact h.symm.trans h'

theorem SameBy.trans_folded {s t u : Text} (h : SameBy sameFolded s t)
    (h' : SameBy sameFolded t u) :
    SameBy sameFolded s u := by
  induction h generalizing u with
  | nil => exact h'
  | cons hab _ ih =>
    cases h' with
    | cons hbc hrest =>
      refine .cons ?_ (ih hrest)
      rw [sameFolded_iff] at hab hbc ⊢
      exact hab.trans hbc

theorem SameBy.folded {s t : Text} (h : SameBy (· == ·) s t) : SameBy sameFolded s t :=
  h.mono fun a b hab => by rw [beq_iff_eq.mp hab, sameFolded_refl]

theorem SameBy.lowered {s t : Text} (h : SameBy (· == ·) s t) : SameBy sameLowered s t :=
  h.mono fun a b hab => by rw [beq_iff_eq.mp hab, sameLowered_refl]

/-! ## Reading a literal off the front

A text begins with a literal in one way at most, since the part that is the same has its length. -/

section Occurrence

variable {same : Char → Char → Bool} {literal t rest : Text}

theorem dropLiteral?_eq_some_iff :
    dropLiteral? same literal t = some rest ↔
      ∃ front, t = front ++ rest ∧ SameBy same literal front := by
  induction literal generalizing t with
  | nil => simp [dropLiteral?, eq_comm]
  | cons l literal ih =>
    cases t with
    | nil =>
      refine iff_of_false (by simp [dropLiteral?]) ?_
      rintro ⟨front, heq, hsame⟩
      rw [(List.append_eq_nil_iff.mp heq.symm).1] at hsame
      cases hsame
    | cons c t =>
      rw [dropLiteral?]
      split
      · next hsame =>
        rw [ih]
        constructor
        · rintro ⟨front, rfl, hfront⟩
          exact ⟨c :: front, rfl, .cons hsame hfront⟩
        · rintro ⟨front, heq, hfront⟩
          cases hfront with
          | cons _ hfront => exact ⟨_, (List.cons.inj heq).2, hfront⟩
      · next hdiffer =>
        refine iff_of_false (by simp) ?_
        rintro ⟨front, heq, hfront⟩
        cases hfront with
        | cons hsame _ =>
          rw [(List.cons.inj heq).1] at hdiffer
          exact hdiffer hsame

theorem beginsWith_iff :
    beginsWith same literal t = true ↔
      ∃ front rest, t = front ++ rest ∧ SameBy same literal front := by
  rw [beginsWith, Option.isSome_iff_exists, exists_comm]
  exact exists_congr fun _ => dropLiteral?_eq_some_iff

/-! ## Searching for a literal

A first occurrence has no other in front of it. It is unique, so what a search finds is determined
by the text and the literal. -/

/-- `front` is the first text that is the same as the literal; `before` is in front of it and `rest`
behind it. -/
structure IsFirstOccurrence (same : Char → Char → Bool)
    (literal before front rest : Text) : Prop where
  sameBy : SameBy same literal front
  before_length_le : ∀ other found behind, before ++ (front ++ rest) = other ++ (found ++ behind) →
    SameBy same literal found → before.length ≤ other.length

theorem isFirstOccurrence_nil {front : Text} (h : SameBy same literal front) :
    IsFirstOccurrence same literal [] front rest :=
  ⟨h, fun _ _ _ _ _ => Nat.zero_le _⟩

/-- One more character in front, if the literal does not stand there. -/
theorem IsFirstOccurrence.cons {c : Char} {before front : Text}
    (h : IsFirstOccurrence same literal before front rest)
    (hhere : ∀ found behind, c :: (before ++ (front ++ rest)) = found ++ behind →
      ¬SameBy same literal found) :
    IsFirstOccurrence same literal (c :: before) front rest := by
  refine ⟨h.sameBy, fun other found behind heq hfound => ?_⟩
  cases other with
  | nil => exact absurd hfound (hhere found behind heq)
  | cons d other =>
    have hle := h.before_length_le other found behind (List.cons.inj heq).2 hfound
    exact Nat.succ_le_succ hle

theorem IsFirstOccurrence.eq {before front before' front' rest' : Text}
    (h : IsFirstOccurrence same literal before front rest)
    (h' : IsFirstOccurrence same literal before' front' rest')
    (heq : before ++ (front ++ rest) = before' ++ (front' ++ rest')) :
    before = before' ∧ front = front' ∧ rest = rest' := by
  have hle := h.before_length_le before' front' rest' heq h'.sameBy
  have hge := h'.before_length_le before front rest heq.symm h.sameBy
  obtain ⟨hbefore, htail⟩ := List.append_inj heq (Nat.le_antisymm hle hge)
  have hlength := h.sameBy.length_eq.symm.trans h'.sameBy.length_eq
  exact ⟨hbefore, List.append_inj htail hlength⟩

theorem isFirstOccurrence_of_dropThrough? (h : dropThrough? same literal t = some rest) :
    ∃ before front, t = before ++ (front ++ rest)
      ∧ IsFirstOccurrence same literal before front rest := by
  induction t with
  | nil => cases h
  | cons c t ih =>
    rw [dropThrough?] at h
    split at h
    · next found hdrop =>
      obtain ⟨front, heq, hfront⟩ := dropLiteral?_eq_some_iff.mp hdrop
      rw [← Option.some.inj h]
      exact ⟨[], front, heq, isFirstOccurrence_nil hfront⟩
    · next hnone =>
      obtain ⟨before, front, rfl, hfirst⟩ := ih h
      refine ⟨c :: before, front, rfl, hfirst.cons fun found behind heq hfound => ?_⟩
      have hdrop := dropLiteral?_eq_some_iff.mpr ⟨found, heq, hfound⟩
      cases hnone.symm.trans hdrop

/-- A search finds whatever occurs, perhaps further in front than where it is known to occur. -/
theorem exists_dropThrough? (hne : literal ≠ []) (before rest : Text) {front : Text}
    (h : SameBy same literal front) :
    ∃ found, dropThrough? same literal (before ++ (front ++ rest)) = some found := by
  induction before with
  | nil =>
    have hdrop : dropLiteral? same literal (front ++ rest) = some rest :=
      dropLiteral?_eq_some_iff.mpr ⟨front, rfl, h⟩
    cases h with
    | nil => exact absurd rfl hne
    | cons hc hfront =>
      exact ⟨rest, by
        rw [List.nil_append, List.cons_append, dropThrough?, ← List.cons_append, hdrop]⟩
  | cons c before ih =>
    obtain ⟨found, hfound⟩ := ih
    rw [List.cons_append, dropThrough?]
    split
    · next rest' _ => exact ⟨rest', rfl⟩
    · exact ⟨found, hfound⟩

/-- **A search stops behind the first occurrence**, and finds one if there is any. An empty literal
is not searched for. -/
theorem dropThrough?_eq_some_iff (hne : literal ≠ []) :
    dropThrough? same literal t = some rest ↔
      ∃ before front, t = before ++ (front ++ rest)
        ∧ IsFirstOccurrence same literal before front rest := by
  refine ⟨isFirstOccurrence_of_dropThrough?, ?_⟩
  rintro ⟨before, front, rfl, hfirst⟩
  obtain ⟨found, hfound⟩ := exists_dropThrough? hne before rest hfirst.sameBy
  obtain ⟨before', front', heq, hother⟩ := isFirstOccurrence_of_dropThrough? hfound
  -- what is found is a first occurrence too, and there is only one
  obtain ⟨-, -, rfl⟩ := hfirst.eq hother heq
  exact hfound

end Occurrence

end StepPhrase.Text
