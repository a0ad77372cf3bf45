import StepPhrase.Argument.Scan

/-!
# The machine reads exactly the tokens

`Shape.pattern` describes the shapes of arguments as regular expressions, `Scan.run` reads them one
character at a time. This module shows that the two agree, state by state:

* **families** — the first character of a token decides which of the four kinds it is, and the
  machine never leaves that kind (`Scan.family_run`). So each kind can be read on its own.
* **`run_*_iff`** — for each kind, the texts that lead from its first state to its last one.
* **`run_start_*_iff`** — the texts that lead from the beginning to an end, shape by shape.
* **`Shape.token_matches_iff`** — from its beginning the machine accepts exactly `Shape.token`.
-/

namespace StepPhrase

/-- A text that begins with `c` ends with `last` behind something that has `P`: either `c` is that
end, or it belongs to the something. -/
theorem exists_cons_eq_append_singleton {c last : Char} {t : Text} {P : Text → Prop} :
    (∃ m, c :: t = m ++ [last] ∧ P m) ↔
      (t = [] ∧ c = last ∧ P []) ∨ ∃ m, t = m ++ [last] ∧ P (c :: m) := by
  constructor
  · rintro ⟨m, heq, hm⟩
    cases m with
    | nil =>
      obtain ⟨rfl, rfl⟩ := List.cons.inj heq
      exact Or.inl ⟨rfl, rfl, hm⟩
    | cons d m =>
      obtain ⟨rfl, rfl⟩ := List.cons.inj heq
      exact Or.inr ⟨m, rfl, hm⟩
  · rintro (⟨rfl, rfl, hm⟩ | ⟨m, rfl, hm⟩)
    · exact ⟨[], rfl, hm⟩
    · exact ⟨c :: m, rfl, hm⟩

theorem exists_cons_eq_cons {c : Char} {t : Text} {P : Char → Text → Prop} :
    (∃ d u, c :: t = d :: u ∧ P d u) ↔ P c t := by
  constructor
  · rintro ⟨d, u, heq, h⟩
    obtain ⟨rfl, rfl⟩ := List.cons.inj heq
    exact h
  · exact fun h => ⟨c, t, rfl, h⟩

namespace Scan

@[simp] theorem run_nil (state : Scan) : run state [] = some state := rfl

@[simp] theorem run_cons (state : Scan) (c : Char) (t : Text) :
    run state (c :: t) = (state.step c).bind (run · t) := by
  rw [run]
  cases state.step c <;> rfl

theorem run_append (state : Scan) (s t : Text) :
    run state (s ++ t) = (run state s).bind (run · t) := by
  induction s generalizing state with
  | nil => rfl
  | cons c s ih => simp [ih, Option.bind_assoc]

/-! ## Families

The states behind the first character fall into four families, one for each kind of token. A step
stays in its family. -/

/-- The kind of token that a state belongs to; integers count as numbers. The scan never changes
from one kind to another, so the first character decides. -/
def family : Scan → Option Shape
  | .start => none
  | .inMap | .mapEnd => some .map
  | .inList | .listEnd => some .list
  | .inQuotes _ | .escaped _ | .quotesEnd => some .string
  | .signed | .integer | .point | .fraction => some .double

theorem family_within {inside ended next : Scan} {closing c : Char} {kind : Option Shape}
    (h : within inside ended closing c = some next) (hinside : inside.family = kind)
    (hended : ended.family = kind) : next.family = kind := by
  unfold within at h
  split at h
  · cases h
  · split at h
    · cases h
      exact hended
    · cases h
      exact hinside

theorem eq_of_digit {state next : Scan} {c : Char} (h : digit state c = some next) :
    Unicode.isDecimalDigit c = true ∧ next = state := by
  unfold digit at h
  split at h
  · next hc => exact ⟨hc, (Option.some.inj h).symm⟩
  · cases h

theorem family_step {state next : Scan} {c : Char} (h : state.step c = some next)
    (hstart : state ≠ .start) : next.family = state.family := by
  cases state with
  | start => exact absurd rfl hstart
  | inMap => exact family_within h rfl rfl
  | mapEnd => exact family_within h rfl rfl
  | inList => exact family_within h rfl rfl
  | listEnd => exact family_within h rfl rfl
  | inQuotes q =>
    simp only [step] at h
    split at h
    · cases h
      rfl
    · split at h <;> cases h <;> rfl
  | escaped q =>
    simp only [step] at h
    split at h <;> cases h
    rfl
  | quotesEnd => cases h
  | signed => rw [(eq_of_digit h).2]; rfl
  | integer =>
    simp only [step] at h
    split at h
    · cases h
      rfl
    · rw [(eq_of_digit h).2]
  | point => rw [(eq_of_digit h).2]; rfl
  | fraction => rw [(eq_of_digit h).2]

/-- What has begun as a token of one kind ends as a token of that kind. So the shape of a token
shows in its first character, but for integers. -/
theorem family_run {state last : Scan} {t : Text} (h : run state t = some last)
    (hstart : state ≠ .start) : last.family = state.family := by
  induction t generalizing state with
  | nil => rw [← Option.some.inj h]
  | cons c t ih =>
    rw [run_cons] at h
    obtain ⟨next, hstep, hrun⟩ := Option.bind_eq_some_iff.mp h
    have hnext := family_step hstep hstart
    -- the family of `start` is no family, so the next state is not `start` either
    have hne : next ≠ .start := by
      rintro rfl
      cases state <;> simp_all [family]
    rw [ih hrun hne, hnext]

/-! ## First characters

The first character decides on the family, so a text that leads to a state has begun with one of the
characters of that family (`run_start_iff`). The four kinds are read apart from here on. -/

theorem first_cases {c : Char} {state : Scan} (h : first c = some state) :
    (c = '{' ∧ state = .inMap) ∨ (c = '[' ∧ state = .inList)
      ∨ ((c = '-' ∨ c = '+') ∧ state = .signed)
      ∨ (Unicode.isDecimalDigit c = true ∧ state = .integer)
      ∨ ∃ q : Quote, c = q.mark ∧ state = .inQuotes q := by
  unfold first at h
  split at h
  · next hc => exact Or.inl ⟨hc, (Option.some.inj h).symm⟩
  · split at h
    · next hc => exact Or.inr (Or.inl ⟨hc, (Option.some.inj h).symm⟩)
    · split at h
      · next hc => exact Or.inr (Or.inr (Or.inl ⟨hc, (Option.some.inj h).symm⟩))
      · split at h
        · next hc => exact Or.inr (Or.inr (Or.inr (Or.inl ⟨hc, (Option.some.inj h).symm⟩)))
        · obtain ⟨q, hq, hstate⟩ := Option.map_eq_some_iff.mp h
          refine Or.inr (Or.inr (Or.inr (Or.inr ⟨q, ?_, hstate.symm⟩)))
          unfold Quote.ofChar? at hq
          split at hq
          · next hc => rw [hc, ← Option.some.inj hq]; rfl
          · split at hq
            · next hc => rw [hc, ← Option.some.inj hq]; rfl
            · cases hq

theorem first_mark (q : Quote) : first q.mark = some (.inQuotes q) := by
  cases q <;> decide

theorem first_of_isDecimalDigit {c : Char} (h : Unicode.isDecimalDigit c = true) :
    first c = some .integer := by
  have hne : ∀ d : Char, Unicode.isDecimalDigit d = false → c ≠ d := by
    rintro d hd rfl
    exact absurd h (by simp [hd])
  unfold first
  rw [if_neg (hne '{' (by decide)), if_neg (hne '[' (by decide)),
    if_neg (not_or.mpr ⟨hne '-' (by decide), hne '+' (by decide)⟩), if_pos h]

/-- A text that leads from the beginning to a state of a family has begun with that family. -/
theorem run_start_iff {last : Scan} {t : Text} (hlast : last ≠ .start) :
    run .start t = some last ↔
      ∃ c u state, t = c :: u ∧ first c = some state ∧ state.family = last.family
        ∧ run state u = some last := by
  cases t with
  | nil => simp [Ne.symm hlast]
  | cons c u =>
    rw [run_cons]
    constructor
    · intro h
      obtain ⟨state, hstep, hrun⟩ := Option.bind_eq_some_iff.mp h
      have hstate : state ≠ .start := by
        rintro rfl
        rcases first_cases hstep with h | h | h | h | ⟨q, h⟩ <;> cases h.2
      exact ⟨c, u, state, rfl, hstep, (family_run hrun hstate).symm, hrun⟩
    · rintro ⟨c, u, state, heq, hstep, -, hrun⟩
      obtain ⟨rfl, rfl⟩ := List.cons.inj heq
      exact Option.bind_eq_some_iff.mpr ⟨state, hstep, hrun⟩

/-! ## Maps and lists

Both are read by `within`: inside and ended differ only in whether the last character was the
closing one, so the text has to stay on the line and to end with it. -/

section Within

variable {inside ended : Scan} {closing : Char}

theorem run_within_iff (hinside : ∀ c, inside.step c = within inside ended closing c)
    (hended : ∀ c, ended.step c = within inside ended closing c) (hne : inside ≠ ended)
    (hclosing : closing ≠ '\n') {t : Text} :
    run inside t = some ended ↔ ∃ m, t = m ++ [closing] ∧ ∀ c ∈ m, c ≠ '\n' := by
  induction t with
  | nil => simp [hne]
  | cons c t ih =>
    rw [run_cons, hinside, exists_cons_eq_append_singleton]
    by_cases hbreak : c = '\n'
    · simp [within, hbreak, hclosing.symm]
    · by_cases hclose : c = closing
      · -- behind the closing character the text may end, or go on as inside
        have hstep : within inside ended closing c = some ended := by
          simp [within, hclose, hclosing]
        have hrun : run ended t = some ended ↔ t = [] ∨ run inside t = some ended := by
          cases t with
          | nil => simp
          | cons d t => simp [hinside, hended]
        rw [hstep, Option.bind_some, hrun, ih]
        simp [hclose, hclosing]
      · simp [within, hbreak, hclose, ih]

end Within

theorem run_inMap_iff {t : Text} :
    run .inMap t = some .mapEnd ↔ ∃ m, t = m ++ ['}'] ∧ ∀ c ∈ m, c ≠ '\n' :=
  run_within_iff (fun _ => rfl) (fun _ => rfl) (by decide) (by decide)

theorem run_inList_iff {t : Text} :
    run .inList t = some .listEnd ↔ ∃ m, t = m ++ [']'] ∧ ∀ c ∈ m, c ≠ '\n' :=
  run_within_iff (fun _ => rfl) (fun _ => rfl) (by decide) (by decide)

/-! ## Quotations

Inside the quotes a text is made of units: one character that is neither a backslash nor the quote,
or a backslash with one of the two. -/

end Scan

namespace Shape

/-- A unit of a quotation: a character that is neither a backslash nor the quote, or one of these
two behind a backslash. -/
def quotedUnit (quote : Char) : Pattern :=
  .alt (.anyBut ['\\', quote]) (.alt (Pattern.word '\\' ['\\']) (Pattern.word '\\' [quote]))

/-- The texts that may stand between two quotes, unit by unit. In no other text does each backslash
have something to escape. -/
def Quotable (quote : Char) (t : Text) : Prop := Pattern.Matches (.star (quotedUnit quote)) t

theorem matches_quotedUnit_iff {quote : Char} {t : Text} :
    (quotedUnit quote).Matches t ↔
      (∃ c, c ≠ '\\' ∧ c ≠ quote ∧ t = [c]) ∨ ∃ c, (c = '\\' ∨ c = quote) ∧ t = ['\\', c] := by
  simp only [quotedUnit, Pattern.word, Pattern.matches_alt_iff, Pattern.matches_char_seq_iff,
    Pattern.matches_char_iff, Pattern.matches_anyBut_iff, List.mem_cons, List.not_mem_nil, or_false,
    not_or, and_assoc]
  -- the two pairs of the pattern are one case here, told by their second character
  refine or_congr Iff.rfl ⟨?_, ?_⟩
  · rintro (⟨u, rfl, rfl⟩ | ⟨u, rfl, rfl⟩)
    · exact ⟨'\\', Or.inl rfl, rfl⟩
    · exact ⟨quote, Or.inr rfl, rfl⟩
  · rintro ⟨c, rfl | rfl, rfl⟩
    · exact Or.inl ⟨_, rfl, rfl⟩
    · exact Or.inr ⟨_, rfl, rfl⟩

@[simp] theorem quotable_nil (quote : Char) : Quotable quote [] := .starNil

/-- A quotable text begins with a unit: a character that means nothing, or a backslash and what it
stands in front of. -/
theorem quotable_cons_iff {quote c : Char} {t : Text} :
    Quotable quote (c :: t) ↔
      (c ≠ '\\' ∧ c ≠ quote ∧ Quotable quote t)
        ∨ (c = '\\' ∧ ∃ d u, t = d :: u ∧ (d = '\\' ∨ d = quote) ∧ Quotable quote u) := by
  rw [Quotable, Pattern.matches_star_iff_nil_or]
  constructor
  · rintro (h | ⟨s, u, heq, hs, hu⟩)
    · cases h
    · rcases matches_quotedUnit_iff.mp hs with ⟨d, hd, hd', rfl⟩ | ⟨d, hd, rfl⟩
      · obtain ⟨rfl, rfl⟩ := List.cons.inj heq
        exact Or.inl ⟨hd, hd', hu⟩
      · obtain ⟨rfl, rfl⟩ := List.cons.inj heq
        exact Or.inr ⟨rfl, d, u, rfl, hd, hu⟩
  · rintro (⟨hc, hc', ht⟩ | ⟨rfl, d, u, rfl, hd, hu⟩)
    · exact Or.inr ⟨[c], t, rfl, matches_quotedUnit_iff.mpr (Or.inl ⟨c, hc, hc', rfl⟩), ht⟩
    · exact Or.inr ⟨['\\', d], u, rfl, matches_quotedUnit_iff.mpr (Or.inr ⟨d, hd, rfl⟩), hu⟩

theorem matches_quoted_iff {quote : Char} {t : Text} :
    (quoted quote).Matches t ↔ ∃ m, t = quote :: (m ++ [quote]) ∧ Quotable quote m := by
  have hunfold : quoted quote =
    .seq (.char quote) (.seq (.star (quotedUnit quote)) (.char quote)) := rfl
  rw [hunfold, Pattern.matches_char_seq_iff]
  constructor
  · rintro ⟨u, rfl, hu⟩
    obtain ⟨m, rfl, hm⟩ := Pattern.matches_seq_char_iff.mp hu
    exact ⟨m, rfl, hm⟩
  · rintro ⟨m, rfl, hm⟩
    exact ⟨m ++ [quote], rfl, Pattern.matches_seq_char_iff.mpr ⟨m, rfl, hm⟩⟩

/-- The strings are the quotations: the same mark at both ends, and between them what may stand
there. -/
theorem matches_string_iff {t : Text} :
    string.pattern.Matches t ↔
      ∃ (q : Quote) (m : Text), t = q.mark :: (m ++ [q.mark]) ∧ Quotable q.mark m := by
  rw [pattern, Pattern.matches_alt_iff, matches_quoted_iff, matches_quoted_iff]
  constructor
  · rintro (⟨m, ht, hm⟩ | ⟨m, ht, hm⟩)
    · exact ⟨.single, m, ht, hm⟩
    · exact ⟨.double, m, ht, hm⟩
  · rintro ⟨q, m, ht, hm⟩
    cases q with
    | single => exact .inl ⟨m, ht, hm⟩
    | double => exact .inr ⟨m, ht, hm⟩

end Shape

namespace Scan

theorem mark_ne_backslash (q : Quote) : q.mark ≠ '\\' := by cases q <;> decide

theorem run_quotesEnd_iff {t : Text} : run .quotesEnd t = some .quotesEnd ↔ t = [] := by
  cases t with
  | nil => simp
  | cons c t => simp [step]

/-- Behind a backslash there is one character that it stands in front of, and then the machine is
where it was before the backslash. -/
theorem run_escaped_iff {q : Quote} {t : Text} {last : Scan} (hlast : last ≠ .escaped q) :
    run (.escaped q) t = some last ↔
      ∃ d u, t = d :: u ∧ (d = '\\' ∨ d = q.mark) ∧ run (.inQuotes q) u = some last := by
  cases t with
  | nil => simp [Ne.symm hlast]
  | cons d u =>
    rw [exists_cons_eq_cons, run_cons, step]
    split
    · next hd => simp [hd]
    · next hd => simp [hd]

theorem run_inQuotes_iff (q : Quote) (t : Text) :
    run (.inQuotes q) t = some .quotesEnd ↔ ∃ m, t = m ++ [q.mark] ∧ Shape.Quotable q.mark m := by
  -- on the length of the text, since a backslash takes its character with it
  match t with
  | [] => simp
  | c :: t =>
    rw [run_cons, exists_cons_eq_append_singleton]
    by_cases hback : c = '\\'
    · subst hback
      -- a backslash takes its character with it; neither can be the closing mark
      have hmark : ('\\' : Char) ≠ q.mark := (mark_ne_backslash q).symm
      have hstep : step (.inQuotes q) '\\' = some (.escaped q) := by simp [step]
      rw [hstep, Option.bind_some, run_escaped_iff (by simp)]
      constructor
      · rintro ⟨d, u, rfl, hd, hrun⟩
        obtain ⟨m, rfl, hm⟩ := (run_inQuotes_iff q u).mp hrun
        exact Or.inr ⟨d :: m, rfl, Shape.quotable_cons_iff.mpr (Or.inr ⟨rfl, d, m, rfl, hd, hm⟩)⟩
      · rintro (⟨-, h, -⟩ | ⟨m, rfl, hm⟩)
        · exact absurd h hmark
        · rcases Shape.quotable_cons_iff.mp hm with ⟨h, -⟩ | ⟨-, d, v, rfl, hd, hv⟩
          · exact absurd rfl h
          · exact ⟨d, v ++ [q.mark], rfl, hd, (run_inQuotes_iff q _).mpr ⟨v, rfl, hv⟩⟩
    · by_cases hmark : c = q.mark
      · -- the mark ends the quotation, so nothing may follow it
        have hstep : step (.inQuotes q) c = some .quotesEnd := by
          simp [step, hmark, mark_ne_backslash q]
        rw [hstep, Option.bind_some, run_quotesEnd_iff]
        simp [hmark, Shape.quotable_cons_iff, mark_ne_backslash q]
      · -- any other character stands for itself
        have hstep : step (.inQuotes q) c = some (.inQuotes q) := by simp [step, hback, hmark]
        rw [hstep, Option.bind_some, run_inQuotes_iff q t]
        simp [hback, hmark, Shape.quotable_cons_iff]
termination_by t.length

/-! ## Numbers

Digits, perhaps a point and more digits, perhaps a sign in front. A number may end before its point
or behind the digits that follow it; which of the two tells integers from decimals. -/

end Scan

namespace Shape

/-- Texts of nothing but decimal digits. -/
def Digits (t : Text) : Prop := ∀ c ∈ t, Unicode.isDecimalDigit c = true

@[simp] theorem digits_nil : Digits [] := by simp [Digits]

@[simp] theorem digits_cons {c : Char} {t : Text} :
    Digits (c :: t) ↔ Unicode.isDecimalDigit c = true ∧ Digits t := List.forall_mem_cons

theorem matches_plus_digit_iff {t : Text} :
    Pattern.Matches (.plus .digit) t ↔ t ≠ [] ∧ Digits t :=
  Pattern.matches_plus_iff fun _ => Pattern.matches_digit_iff

theorem matches_sign_iff {t : Text} : sign.Matches t ↔ t = [] ∨ t = ['-'] ∨ t = ['+'] := by
  simp [sign, Pattern.matches_oneOf_iff]

end Shape

namespace Scan

open Shape (Digits)

theorem bind_digit_iff {state last : Scan} {c : Char} {t : Text} :
    (digit state c).bind (run · t) = some last ↔
      Unicode.isDecimalDigit c = true ∧ run state t = some last := by
  unfold digit
  split
  · next hc => simp [hc]
  · next hc => simp [hc]

theorem not_isDecimalDigit_point : Unicode.isDecimalDigit '.' = false := by decide

theorem run_fraction_iff {t : Text} {last : Scan} :
    run .fraction t = some last ↔ Digits t ∧ last = .fraction := by
  induction t with
  | nil => simp [eq_comm]
  | cons c t ih => simp [step, bind_digit_iff, ih, and_assoc]

theorem run_point_iff {t : Text} : run .point t = some .fraction ↔ t ≠ [] ∧ Digits t := by
  cases t with
  | nil => simp
  | cons c t => simp [step, bind_digit_iff, run_fraction_iff]

theorem run_point_ne_integer (t : Text) : run .point t ≠ some .integer := by
  cases t with
  | nil => simp
  | cons c t => simp [step, bind_digit_iff, run_fraction_iff]

theorem run_integer_iff {t : Text} : run .integer t = some .integer ↔ Digits t := by
  induction t with
  | nil => simp
  | cons c t ih =>
    by_cases hpoint : c = '.'
    · subst hpoint
      simp [step, run_point_ne_integer, not_isDecimalDigit_point]
    · simp [step, hpoint, bind_digit_iff, ih]

/-- Digits, a point, and digits again, at least one of them. -/
def PointAndDigits (t : Text) : Prop :=
  ∃ front back, t = front ++ '.' :: back ∧ Digits front ∧ back ≠ [] ∧ Digits back

theorem run_integer_fraction_iff {t : Text} :
    run .integer t = some .fraction ↔ PointAndDigits t := by
  induction t with
  | nil => simp [PointAndDigits]
  | cons c t ih =>
    by_cases hpoint : c = '.'
    · subst hpoint
      -- behind the point there are digits only, and the part in front of it ends here
      simp only [run_cons, step, if_true, Option.bind_some, run_point_iff]
      constructor
      · rintro ⟨hne, ht⟩
        exact ⟨[], t, rfl, Shape.digits_nil, hne, ht⟩
      · rintro ⟨front, back, heq, hfront, hne, hback⟩
        cases front with
        | nil =>
          obtain ⟨-, rfl⟩ := List.cons.inj heq
          exact ⟨hne, hback⟩
        | cons d front =>
          obtain ⟨rfl, -⟩ := List.cons.inj heq
          simp [not_isDecimalDigit_point] at hfront
    · -- any other character has to be a digit, and belongs to the part in front of the point
      simp only [run_cons, step, hpoint, if_false, bind_digit_iff]
      constructor
      · rintro ⟨hc, hrun⟩
        obtain ⟨front, back, rfl, hfront, hback⟩ := ih.mp hrun
        exact ⟨c :: front, back, rfl, Shape.digits_cons.mpr ⟨hc, hfront⟩, hback⟩
      · rintro ⟨front, back, heq, hfront, hback⟩
        cases front with
        | nil => exact absurd (List.cons.inj heq).1 hpoint
        | cons d front =>
          obtain ⟨rfl, rfl⟩ := List.cons.inj heq
          rw [Shape.digits_cons] at hfront
          exact ⟨hfront.1, ih.mpr ⟨front, back, rfl, hfront.2, hback⟩⟩

theorem run_signed_iff {t : Text} {last : Scan} (hlast : last ≠ .signed) :
    run .signed t = some last ↔
      ∃ c u, t = c :: u ∧ Unicode.isDecimalDigit c = true ∧ run .integer u = some last := by
  cases t with
  | nil => simp [Ne.symm hlast]
  | cons c t =>
    rw [exists_cons_eq_cons, run_cons]
    exact bind_digit_iff

/-- A number is what may follow a sign, with or without one: the state behind a sign and the
beginning are told apart by the sign alone. -/
theorem run_start_number_iff {t : Text} {last : Scan} (hfamily : last.family = some .double)
    (hlast : last ≠ .signed) :
    run .start t = some last ↔ ∃ s u, t = s ++ u ∧ Shape.sign.Matches s ∧ run .signed u =
      some last := by
  have hstart : last ≠ .start := by
    rintro rfl
    cases hfamily
  rw [run_start_iff hstart]
  constructor
  · rintro ⟨c, u, state, rfl, hfirst, hstate, hrun⟩
    rw [hfamily] at hstate
    -- only a sign or a digit begins a number
    rcases first_cases hfirst with ⟨-, rfl⟩ | ⟨-, rfl⟩ | ⟨hc, rfl⟩ | ⟨hc, rfl⟩ | ⟨q, -, rfl⟩
    · cases hstate
    · cases hstate
    · refine ⟨[c], u, rfl, ?_, hrun⟩
      rw [Shape.matches_sign_iff]
      rcases hc with rfl | rfl <;> simp
    · refine ⟨[], c :: u, rfl, Shape.matches_sign_iff.mpr (Or.inl rfl), ?_⟩
      exact (run_signed_iff hlast).mpr ⟨c, u, rfl, hc, hrun⟩
    · cases hstate
  · rintro ⟨s, u, rfl, hs, hrun⟩
    rcases Shape.matches_sign_iff.mp hs with rfl | rfl | rfl
    · obtain ⟨c, v, rfl, hc, hv⟩ := (run_signed_iff hlast).mp hrun
      exact ⟨c, v, .integer, rfl, first_of_isDecimalDigit hc, hfamily.symm, hv⟩
    · exact ⟨'-', u, .signed, rfl, by decide, hfamily.symm, hrun⟩
    · exact ⟨'+', u, .signed, rfl, by decide, hfamily.symm, hrun⟩

/-! ## Shape by shape

What has been shown of each family from its first state on is put behind its first character. The
numbers come in two states, which only differ in whether there is a point. -/

/-- A kind of token that only one character begins: from there on the machine is in one known state,
and what it still has to do can be said of that state. -/
theorem run_start_iff_of_opening {opening : Char} {inside last : Scan} {t : Text}
    (hlast : last ≠ .start)
    (hopening : ∀ c state, first c = some state → state.family = last.family →
      c = opening ∧ state = inside)
    (hfirst : first opening = some inside) (hfamily : inside.family = last.family) :
    run .start t = some last ↔ ∃ u, t = opening :: u ∧ run inside u = some last := by
  rw [run_start_iff hlast]
  constructor
  · rintro ⟨c, u, state, rfl, hstep, hstate, hrun⟩
    obtain ⟨rfl, rfl⟩ := hopening c state hstep hstate
    exact ⟨u, rfl, hrun⟩
  · rintro ⟨u, rfl, hrun⟩
    exact ⟨opening, u, inside, rfl, hfirst, hfamily, hrun⟩

theorem run_start_mapEnd_iff {t : Text} :
    run .start t = some .mapEnd ↔ Shape.map.pattern.Matches t := by
  have hopening : ∀ c state, first c = some state → state.family = family .mapEnd →
      c = '{' ∧ state = .inMap := by
    intro c state hfirst hstate
    rcases first_cases hfirst with h | ⟨-, rfl⟩ | ⟨-, rfl⟩ | ⟨-, rfl⟩ | ⟨q, -, rfl⟩
    · exact h
    all_goals cases hstate
  rw [run_start_iff_of_opening (by decide) hopening (by decide) rfl]
  simp only [run_inMap_iff, Shape.pattern, Shape.enclosed, Pattern.matches_char_seq_iff,
    Pattern.matches_seq_char_iff, Pattern.matches_star_iff fun _ => Pattern.matches_inLine_iff]

theorem run_start_listEnd_iff {t : Text} :
    run .start t = some .listEnd ↔ Shape.list.pattern.Matches t := by
  have hopening : ∀ c state, first c = some state → state.family = family .listEnd →
      c = '[' ∧ state = .inList := by
    intro c state hfirst hstate
    rcases first_cases hfirst with ⟨-, rfl⟩ | h | ⟨-, rfl⟩ | ⟨-, rfl⟩ | ⟨q, -, rfl⟩
    case inr.inl => exact h
    all_goals cases hstate
  rw [run_start_iff_of_opening (by decide) hopening (by decide) rfl]
  simp only [run_inList_iff, Shape.pattern, Shape.enclosed, Pattern.matches_char_seq_iff,
    Pattern.matches_seq_char_iff, Pattern.matches_star_iff fun _ => Pattern.matches_inLine_iff]

theorem run_start_quotesEnd_iff {t : Text} :
    run .start t = some .quotesEnd ↔ Shape.string.pattern.Matches t := by
  rw [Shape.matches_string_iff, run_start_iff (by decide)]
  constructor
  · rintro ⟨c, u, state, rfl, hfirst, hstate, hrun⟩
    rcases first_cases hfirst with ⟨-, rfl⟩ | ⟨-, rfl⟩ | ⟨-, rfl⟩ | ⟨-, rfl⟩ | ⟨q, rfl, rfl⟩
    case inr.inr.inr.inr =>
      obtain ⟨m, rfl, hm⟩ := (run_inQuotes_iff q u).mp hrun
      exact ⟨q, m, rfl, hm⟩
    all_goals cases hstate
  · rintro ⟨q, m, rfl, hm⟩
    exact ⟨q.mark, _, .inQuotes q, rfl, first_mark q, rfl, (run_inQuotes_iff q _).mpr ⟨m, rfl, hm⟩⟩

theorem run_start_integer_iff {t : Text} :
    run .start t = some .integer ↔ Shape.long.pattern.Matches t := by
  rw [run_start_number_iff rfl (by decide), Shape.pattern, Pattern.matches_seq_iff]
  refine exists_congr fun s => exists_congr fun u => and_congr Iff.rfl (and_congr Iff.rfl ?_)
  rw [Shape.matches_plus_digit_iff, run_signed_iff (by decide)]
  cases u with
  | nil => simp
  | cons c u =>
    rw [exists_cons_eq_cons, run_integer_iff, Shape.digits_cons]
    simp

/-- Of the numbers, the machine tells those with a point from those without, where the pattern has a
fraction that may be left out. So both states together stand for one pattern. -/
theorem run_start_number_end_iff {t : Text} :
    run .start t = some .integer ∨ run .start t = some .fraction ↔
      Shape.double.pattern.Matches t := by
  rw [run_start_number_iff rfl (by decide), run_start_number_iff rfl (by decide), Shape.pattern,
    Pattern.matches_seq_iff, ← exists_or]
  refine exists_congr fun s => ?_
  rw [← exists_or]
  refine exists_congr fun u => ?_
  rw [← and_or_left, ← and_or_left]
  refine and_congr Iff.rfl (and_congr Iff.rfl ?_)
  rw [run_signed_iff (by decide), run_signed_iff (by decide), Pattern.matches_seq_iff]
  simp only [run_integer_iff, run_integer_fraction_iff, PointAndDigits, Pattern.matches_opt_iff,
    Pattern.matches_char_seq_iff, Shape.matches_plus_digit_iff]
  constructor
  · -- what is in front of the fraction begins with the digit that the machine started with
    rintro (⟨c, v, rfl, hc, hv⟩ | ⟨c, v, rfl, hc, front, back, rfl, hfront, hne, hback⟩)
    · exact ⟨c :: v, [], (List.append_nil _).symm, ⟨List.cons_ne_nil c v,
        Shape.digits_cons.mpr ⟨hc, hv⟩⟩, Or.inl rfl⟩
    · exact ⟨c :: front, '.' :: back, rfl, ⟨List.cons_ne_nil c front,
        Shape.digits_cons.mpr ⟨hc, hfront⟩⟩, Or.inr ⟨back, rfl, hne, hback⟩⟩
  · rintro ⟨v, w, rfl, ⟨hne, hv⟩, hw⟩
    obtain ⟨c, v, rfl⟩ := List.exists_cons_of_ne_nil hne
    rw [Shape.digits_cons] at hv
    rcases hw with rfl | ⟨back, rfl, hback⟩
    · exact Or.inl ⟨c, v, List.append_nil _, hv⟩
    · exact Or.inr ⟨c, v ++ '.' :: back, rfl, hv.1, v, back, rfl, hv.2, hback⟩

/-- A token that has come to `state` may be completed by `t`. This is the language of the state, and
the patterns of the tokens are compared with it. -/
def Accepts (state : Scan) (t : Text) : Prop := ∃ last, run state t = some last ∧ last.isEnd = true

theorem accepts_nil_iff {state : Scan} : state.Accepts [] ↔ state.isEnd = true := by
  simp [Accepts]

theorem accepts_cons_iff {state : Scan} {c : Char} {t : Text} :
    state.Accepts (c :: t) ↔ ∃ next, state.step c = some next ∧ next.Accepts t := by
  simp only [Accepts, run_cons, Option.bind_eq_some_iff]
  constructor
  · rintro ⟨last, ⟨next, hstep, hrun⟩, hend⟩
    exact ⟨next, hstep, last, hrun, hend⟩
  · rintro ⟨next, hstep, last, hrun, hend⟩
    exact ⟨last, ⟨next, hstep, hrun⟩, hend⟩

theorem isEnd_iff {state : Scan} :
    state.isEnd = true ↔ state = .mapEnd ∨ state = .listEnd ∨ state = .quotesEnd
      ∨ state = .integer ∨ state = .fraction := by
  cases state <;> simp [isEnd, shape?]

end Scan

namespace Shape

/-- **The machine recognises the tokens.** A text is a token as a whole exactly when the machine
reads it to an end: each alternative of the pattern belongs to one state, numbers to two. -/
theorem token_matches_iff {t : Text} : token.Matches t ↔ Scan.start.Accepts t := by
  simp only [token, Scan.Accepts, Pattern.matches_alt_iff, Scan.isEnd_iff,
    ← Scan.run_start_mapEnd_iff,
    ← Scan.run_start_listEnd_iff, ← Scan.run_start_quotesEnd_iff, ← Scan.run_start_number_end_iff]
  constructor
  · rintro (h | h | h | h | h)
    · exact ⟨_, h, by simp⟩
    · exact ⟨_, h, by simp⟩
    · exact ⟨_, h, by simp⟩
    · exact ⟨_, h, by simp⟩
    · exact ⟨_, h, by simp⟩
  · rintro ⟨state, hrun, rfl | rfl | rfl | rfl | rfl⟩
    · exact Or.inl hrun
    · exact Or.inr (Or.inl hrun)
    · exact Or.inr (Or.inr (Or.inl hrun))
    · exact Or.inr (Or.inr (Or.inr (Or.inl hrun)))
    · exact Or.inr (Or.inr (Or.inr (Or.inr hrun)))

instance (t : Text) : Decidable (token.Matches t) :=
  decidable_of_iff ((Scan.run .start t).any Scan.isEnd = true)
    (by rw [token_matches_iff, Scan.Accepts, Option.any_eq_true])

theorem ne_nil_of_token_matches {t : Text} (h : token.Matches t) : t ≠ [] := by
  rintro rfl
  cases Scan.accepts_nil_iff.mp (token_matches_iff.mp h)

end Shape

end StepPhrase
