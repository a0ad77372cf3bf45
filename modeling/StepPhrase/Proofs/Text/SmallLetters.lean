import StepPhrase.Argument.Scan
import StepPhrase.Proofs.Text.Occurrence
import StepPhrase.Text.Caseless

/-!
# Texts in small letters

Two texts differ in the case of ASCII letters only if they are the same in small letters. Everything
that is asked of a character, whether it is a blank, how it folds or what it does to a scan, has the
same answer for a letter and its small form.

The questions are settled by trying the twenty-six capitals, and every other character is its own
small form. Letters beyond ASCII are left alone: some of them change their length or become two.

* **`apply_toLower`** — a question that twenty-six letters answer alike is answered alike by all
  characters and their small forms.
* **`IgnoresCase`** — a comparison of characters that does not see the case of ASCII letters; both
  comparisons in use are of this kind.
* **`dropLiteral?_small`**, **`dropThrough?_small`** — in small letters the same literals are found
  in the same places, whichever of literal and text is written in small letters.
-/

namespace StepPhrase

open Unicode

/-! ## Characters

A question about a character is a function of it. Two characters with the same answers to all
questions that matter cannot be told apart by anything built from those. -/

theorem toLower_eq_self {c : Char} (h : ∀ code < 26, c ≠ Char.ofNat (0x41 + code)) :
    c.toLower = c := by
  refine dif_neg fun hcapital => ?_
  have hle : 0x41 ≤ c.toNat ∧ c.toNat ≤ 0x5A := by
    simpa [UInt32.le_iff_toNat_le] using hcapital
  refine absurd ?_ (h (c.toNat - 0x41) (by omega))
  rw [Nat.add_sub_of_le hle.1, Char.ofNat_toNat]

/-- **What is asked of a character and does not depend on the case of a letter** has the same answer
for its small form. It is enough to ask it of the twenty-six capitals. -/
theorem apply_toLower {α : Type} {f : Char → α}
    (h : ∀ code < 26, f (Char.ofNat (0x41 + code)).toLower = f (Char.ofNat (0x41 + code)))
    (c : Char) : f c.toLower = f c := by
  by_cases hcapital : ∃ code < 26, c = Char.ofNat (0x41 + code)
  · obtain ⟨code, hcode, rfl⟩ := hcapital
    exact h code hcode
  · rw [toLower_eq_self fun code hcode heq => hcapital ⟨code, hcode, heq⟩]

theorem toLower_eq_iff {m : Char}
    (h : ∀ code < 26, (Char.ofNat (0x41 + code)).toLower ≠ m ∧ Char.ofNat (0x41 + code) ≠ m)
    (c : Char) : c.toLower = m ↔ c = m := by
  have hsame := apply_toLower (f := fun c => decide (c = m))
    (fun code hcode => by simp [(h code hcode).1, (h code hcode).2]) c
  simpa using hsame

@[simp] theorem toLower_toLower (c : Char) : c.toLower.toLower = c.toLower :=
  apply_toLower (f := Char.toLower) (by decide) c

@[simp] theorem utf8Size_toLower (c : Char) : c.toLower.utf8Size = c.utf8Size :=
  apply_toLower (f := Char.utf8Size) (by decide) c

@[simp] theorem isWhiteSpace_toLower (c : Char) : isWhiteSpace c.toLower = isWhiteSpace c :=
  apply_toLower (by decide) c

@[simp] theorem foldCase_toLower (c : Char) : foldCase c.toLower = foldCase c :=
  apply_toLower (by decide) c

@[simp] theorem lowerCase_toLower (c : Char) : lowerCase c.toLower = lowerCase c :=
  apply_toLower (by decide) c

@[simp] theorem Scan.step_toLower (state : Scan) (c : Char) :
    state.step c.toLower = state.step c := by
  refine apply_toLower (f := state.step) ?_ c
  cases state with
  | inQuotes q => cases q <;> decide
  | escaped q => cases q <;> decide
  | _ => decide

namespace Text

/-! ## Texts

A text in small letters is as long as it was, in characters and in bytes. -/

/-- A text in small letters, as far as ASCII has them. All other characters stay as they are. -/
def small (t : Text) : Text := t.map Char.toLower

@[simp] theorem small_nil : small [] = [] := rfl

@[simp] theorem small_cons (c : Char) (t : Text) : small (c :: t) = c.toLower :: small t := rfl

@[simp] theorem small_eq_nil_iff {t : Text} : small t = [] ↔ t = [] := List.map_eq_nil_iff

@[simp] theorem length_small (t : Text) : (small t).length = t.length := List.length_map ..

@[simp] theorem small_reverse (t : Text) : small t.reverse = (small t).reverse := List.map_reverse

@[simp] theorem small_small (t : Text) : small (small t) = small t := by
  simp [small, Function.comp_def]

@[simp] theorem byteLength_small (t : Text) : (small t).byteLength = t.byteLength :=
  total_map_eq utf8Size_toLower t

theorem byteLength_eq_of_small {s t : Text} (h : small s = small t) :
    s.byteLength = t.byteLength := by
  rw [← byteLength_small s, h, byteLength_small]

/-! ## Literals

A search compares, and a comparison that ignores case finds the same places. What it leaves is in
small letters if the text was. -/

/-- The comparison does not see the case of ASCII letters. -/
structure IgnoresCase (same : Char → Char → Bool) : Prop where
  left (a b : Char) : same a.toLower b = same a b
  right (a b : Char) : same a b.toLower = same a b

theorem ignoresCase_sameFolded : IgnoresCase sameFolded where
  left a b := by rw [Bool.eq_iff_iff, sameFolded_iff, sameFolded_iff, foldCase_toLower]
  right a b := by rw [Bool.eq_iff_iff, sameFolded_iff, sameFolded_iff, foldCase_toLower]

theorem ignoresCase_sameLowered : IgnoresCase sameLowered where
  left a b := by rw [Bool.eq_iff_iff, sameLowered_iff, sameLowered_iff, lowerCase_toLower]
  right a b := by rw [Bool.eq_iff_iff, sameLowered_iff, sameLowered_iff, lowerCase_toLower]

section IgnoresCase

variable {same : Char → Char → Bool} (hsame : IgnoresCase same)

include hsame

theorem dropLiteral?_small_left (literal t : Text) :
    dropLiteral? same (small literal) t = dropLiteral? same literal t := by
  induction literal generalizing t with
  | nil => rfl
  | cons l literal ih =>
    cases t with
    | nil => rfl
    | cons c t => rw [small_cons, dropLiteral?, dropLiteral?, hsame.left, ih]

theorem dropLiteral?_small (literal t : Text) :
    dropLiteral? same literal (small t) = (dropLiteral? same literal t).map small := by
  induction literal generalizing t with
  | nil => rfl
  | cons l literal ih =>
    cases t with
    | nil => rfl
    | cons c t =>
      rw [small_cons, dropLiteral?, dropLiteral?, hsame.right, ih]
      split <;> rfl

theorem beginsWith_small_left (literal t : Text) :
    beginsWith same (small literal) t = beginsWith same literal t := by
  rw [beginsWith, beginsWith, dropLiteral?_small_left hsame]

theorem beginsWith_small (literal t : Text) :
    beginsWith same literal (small t) = beginsWith same literal t := by
  rw [beginsWith, beginsWith, dropLiteral?_small hsame, Option.isSome_map]

theorem dropThrough?_small_left (literal t : Text) :
    dropThrough? same (small literal) t = dropThrough? same literal t := by
  induction t with
  | nil => rfl
  | cons c t ih => rw [dropThrough?, dropThrough?, dropLiteral?_small_left hsame, ih]

theorem dropThrough?_small (literal t : Text) :
    dropThrough? same literal (small t) = (dropThrough? same literal t).map small := by
  induction t with
  | nil => rfl
  | cons c t ih =>
    rw [small_cons, dropThrough?, dropThrough?, ← small_cons, dropLiteral?_small hsame, ih]
    cases dropLiteral? same literal (c :: t) <;> rfl

end IgnoresCase

end Text

end StepPhrase
