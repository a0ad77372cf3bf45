import StepPhrase.Argument
import StepPhrase.Argument.Search
import StepPhrase.Proofs.Text.SmallLetters

/-!
# Argument tokens in small letters

The tokens of a text in small letters are the tokens of the text, in small letters: they stand in
the same places and have the same shapes, and their quotes go the same way.

Each statement is about one function and holds for the same reason: the function compares characters
with signs and digits only, and to these it makes no difference whether a letter is written large or
small. What follows a token is judged by the caller, so it is assumed that the caller does not look
at case either.

* **`firstToken?_small`** — a search finds the same token, if what follows it is judged without
  regard to case.
* **`Shape.ofText_small`**, **`unquote_small`** — its shape is the same, and its value is the same
  but for the case of letters.
-/

namespace StepPhrase

open Text

/-! ## Scans -/

namespace Scan

theorem run_small (state : Scan) (t : Text) : run state (small t) = run state t := by
  induction t generalizing state with
  | nil => rfl
  | cons c t ih =>
    rw [small_cons, run, run, step_toLower]
    cases state.step c with
    | none => rfl
    | some next => exact ih next

theorem longest_small {follows : Text → Bool} (hfollows : ∀ t, follows (small t) = follows t)
    (state : Scan) (taken : Text) (best : Option (Text × Text)) (t : Text) :
    longest follows state (small taken) (best.map (Prod.map small small)) (small t) =
      (longest follows state taken best t).map (Prod.map small small) := by
  induction t generalizing state taken best with
  | nil =>
    rw [small_nil, longest, longest]
    split <;> rfl
  | cons c t ih =>
    -- the end that is kept is the same one, with what was taken and what follows in small letters
    have hbest : (if state.isEnd && follows (c.toLower :: small t) then
          some (small taken, c.toLower :: small t) else best.map (Prod.map small small)) =
        (if state.isEnd && follows (c :: t) then some (taken, c :: t) else best).map
          (Prod.map small small) := by
      rw [← small_cons, hfollows]
      split <;> rfl
    rw [small_cons, longest, longest, step_toLower, hbest]
    cases state.step c with
    | none => rfl
    | some next => exact ih next (c :: taken) _

end Scan

/-! ## Tokens -/

section Tokens

variable {follows : Text → Bool} (hfollows : ∀ t, follows (small t) = follows t)

include hfollows

theorem longestToken?_small (t : Text) :
    longestToken? follows (small t) = (longestToken? follows t).map (Prod.map small small) := by
  have hlongest := Scan.longest_small hfollows .start [] none t
  rw [Option.map_none, small_nil] at hlongest
  rw [longestToken?, longestToken?, hlongest, Option.map_map, Option.map_map]
  exact Option.map_congr fun found _ => by simp

/-- **The first token in small letters is the first token, in small letters.** A scan makes the same
steps on a letter and on its small form, so tokens begin and end in the same places. -/
theorem firstToken?_small (t : Text) :
    firstToken? follows (small t) = (firstToken? follows t).map (Prod.map small small) := by
  induction t with
  | nil => rfl
  | cons c t ih =>
    rw [small_cons, firstToken?_cons, firstToken?_cons, ← small_cons, longestToken?_small hfollows,
      ih, Option.map_or]

end Tokens

/-! ## Shapes and values -/

theorem Shape.accepts_small (s : Shape) (t : Text) : s.accepts (small t) = s.accepts t := by
  rw [accepts, accepts, Scan.run_small]

theorem Shape.ofText_small (t : Text) : ofText (small t) = ofText t := by
  simp only [ofText, accepts_small]

namespace Quote

theorem toLower_eq_mark_iff (q : Quote) (c : Char) : c.toLower = q.mark ↔ c = q.mark :=
  toLower_eq_iff (by cases q <;> decide) c

theorem head?_small_eq_mark_iff (q : Quote) (t : Text) :
    (small t).head? = some q.mark ↔ t.head? = some q.mark := by
  cases t with
  | nil => rfl
  | cons c t =>
    rw [small_cons, List.head?_cons, List.head?_cons, Option.some_inj, Option.some_inj,
      toLower_eq_mark_iff]

theorem unescape_small (q : Quote) (t : Text) : q.unescape (small t) = small (q.unescape t) := by
  induction t with
  | nil => rfl
  | cons c t ih =>
    rw [small_cons, unescape, unescape, ih]
    simp only [toLower_eq_iff (m := '\\') (by decide), head?_small_eq_mark_iff]
    split <;> rfl

theorem inside?_small (q : Quote) (t : Text) : q.inside? (small t) = (q.inside? t).map small := by
  cases t with
  | nil => rfl
  | cons c t =>
    -- the last character is the mark in both texts or in neither
    have hlast : (small t).getLast? = some q.mark ↔ t.getLast? = some q.mark := by
      rw [← List.head?_reverse, ← List.head?_reverse, ← small_reverse, head?_small_eq_mark_iff]
    rw [small_cons, inside?, inside?]
    simp only [toLower_eq_mark_iff, hlast]
    split
    · simp [small, List.map_dropLast]
    · rfl

end Quote

theorem unquote_small (t : Text) : unquote (small t) = small (unquote t) := by
  rw [unquote, unquote, Quote.inside?_small, Quote.inside?_small]
  cases Quote.single.inside? t with
  | some inner => exact Quote.unescape_small _ _
  | none =>
    cases Quote.double.inside? t with
    | some inner => exact Quote.unescape_small _ _
    | none => rfl

namespace Argument

/-- An argument with its value in small letters. -/
def small (a : Argument) : Argument := { a with value := a.value.small }

@[simp] theorem shape_small (a : Argument) : a.small.shape = a.shape := rfl

theorem ofToken_small (t : Text) : ofToken (Text.small t) = (ofToken t).small := by
  rw [ofToken, Shape.ofText_small]
  rfl

theorem unquoted_small (a : Argument) : a.small.unquoted = a.unquoted.small := by
  rw [unquoted, small, unquote_small]
  rfl

end Argument

end StepPhrase
