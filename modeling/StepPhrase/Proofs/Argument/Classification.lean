import Mathlib.Data.List.Basic
import Mathlib.Data.List.Find
import StepPhrase.Proofs.Argument.Tokens

/-!
# The shape of a text

The shapes are tried one after another, each with its own pattern; the tokens are searched for with
a pattern of their own, in which integers do not occur. The machine ties these together: it comes to
one state on a text, and that state tells which of the patterns match. Only integers match two of
them.

The classifier goes by the order in which it tries the shapes, so what it says of a text seems to
depend on that order. It does not: by the state that the machine ends in, a text has one shape, and
the shapes that accept it are this one and, for an integer, that of the numbers as well.

* **`Shape.ofText_eq`** — the shape of a text is what the machine comes to.
* **`Shape.accepts_iff_matches`** — a shape accepts the texts that its pattern matches.
* **`Shape.ofText_eq_any_iff`** — a text is a token unless it has no shape.
* **`Shape.find?_accepts`** — the order in which the shapes are tried does not matter, but for the
  numbers.
* **`Shape.ofText_spec`** — all of it, in terms of the patterns.
-/

namespace StepPhrase

theorem Scan.eq_of_shape? {state other : Scan} {s : Shape} (h : state.shape? = some s)
    (hother : other.shape? = some s) : state = other := by
  cases state <;> cases h <;> cases other <;> cases hother <;> rfl

namespace Shape

variable {s found : Shape} {t : Text} {tried : List Shape}

/-! ## What the machine comes to

A shape is read off the last state. The states that tell different shapes are different ones, and
none of them is reached by a text that is no token. -/

/-- **The shape of a text is the one that the machine ends with**: of the shapes that accept it,
that one comes first in the order. -/
theorem ofText_eq (t : Text) : ofText t = ((Scan.run .start t).bind Scan.shape?).getD .any := by
  unfold ofText accepts
  cases hrun : Scan.run .start t with
  | none => rfl
  | some state => cases state <;> rfl

theorem ofText_eq_iff_run {last : Scan} (hlast : last.shape? = some s) (hs : s ≠ .any) :
    ofText t = s ↔ Scan.run .start t = some last := by
  rw [ofText_eq]
  cases hrun : Scan.run .start t with
  | none => simp [hs.symm]
  | some state =>
    rw [Option.bind_some, Option.some_inj]
    constructor
    · intro h
      cases hstate : state.shape? with
      | none => exact absurd (by rw [← h, hstate]; rfl) hs
      | some found =>
        rw [hstate, Option.getD_some] at h
        exact Scan.eq_of_shape? (h ▸ hstate) hlast
    · rintro rfl
      rw [hlast, Option.getD_some]

theorem ofText_eq_map_iff : ofText t = .map ↔ map.pattern.Matches t :=
  (ofText_eq_iff_run rfl (by decide)).trans Scan.run_start_mapEnd_iff

theorem ofText_eq_list_iff : ofText t = .list ↔ list.pattern.Matches t :=
  (ofText_eq_iff_run rfl (by decide)).trans Scan.run_start_listEnd_iff

theorem ofText_eq_string_iff_matches : ofText t = .string ↔ string.pattern.Matches t :=
  (ofText_eq_iff_run rfl (by decide)).trans Scan.run_start_quotesEnd_iff

theorem ofText_eq_long_iff : ofText t = .long ↔ long.pattern.Matches t :=
  (ofText_eq_iff_run rfl (by decide)).trans Scan.run_start_integer_iff

theorem ofText_eq_long_or_double_iff :
    ofText t = .long ∨ ofText t = .double ↔ double.pattern.Matches t :=
  (or_congr (ofText_eq_iff_run rfl (by decide)) (ofText_eq_iff_run rfl (by decide))).trans
    Scan.run_start_number_end_iff

/-- **A text has none of the shapes exactly if it is no token**: the machine gets stuck, or it ends
in the middle of something. -/
theorem ofText_eq_any_iff : ofText t = .any ↔ ¬ token.Matches t := by
  rw [token_matches_iff, Scan.Accepts, ofText_eq]
  cases hrun : Scan.run .start t with
  | none => simp
  | some state => cases state <;> simp [Scan.isEnd, Scan.shape?]

/-! ## Trying the shapes

A list of shapes is searched for the first one that accepts the text. Which one that is depends on
what the shapes accept (`accepts_eq`) and, for integers alone, on what comes first. -/

theorem includes_iff : s.includes found = true ↔ found = s ∨ s = .double ∧ found = .long := by
  cases s <;> cases found <;> decide

theorem accepts_eq (hs : s ∈ order) (t : Text) : s.accepts t = s.includes (ofText t) := by
  rw [accepts, ofText_eq]
  cases (Scan.run .start t).bind Scan.shape? with
  | none =>
    have hany : ∀ s ∈ order, s.includes .any = false := by decide
    exact (hany s hs).symm
  | some found => rfl

/-- **A shape accepts the texts that its pattern matches**, although it is the machine that is asked
and not the pattern. -/
theorem accepts_iff_matches (hs : s ∈ order) : s.accepts t = true ↔ s.pattern.Matches t := by
  rw [accepts_eq hs, includes_iff]
  simp only [order, List.mem_cons, List.not_mem_nil, or_false] at hs
  rcases hs with rfl | rfl | rfl | rfl | rfl
  · simp [← ofText_eq_map_iff]
  · simp [← ofText_eq_list_iff]
  · simp [← ofText_eq_string_iff_matches]
  · simp [← ofText_eq_long_iff]
  · simp [← ofText_eq_long_or_double_iff, or_comm]

theorem mem_order_of_ofText_ne_any (h : ofText t ≠ .any) : ofText t ∈ order := by
  unfold ofText at h ⊢
  cases hfind : order.find? (·.accepts t) with
  | none => exact absurd (by rw [hfind]; rfl) h
  | some found => exact List.mem_of_find?_eq_some hfind

/-- **In any order with the integers in front of the numbers, the first shape that accepts a text is
the same.** No more of the order is needed, because only an integer is accepted twice. -/
theorem find?_accepts (hperm : tried.Perm order)
    (hlong : tried.idxOf .long < tried.idxOf .double) (t : Text) :
    (tried.find? (·.accepts t)).getD .any = ofText t := by
  rw [List.find?_congr fun s hs => accepts_eq (hperm.mem_iff.mp hs) t]
  by_cases hany : ofText t = .any
  · -- what no shape accepts is found under none, in whatever order
    have hnone : tried.find? (·.includes (ofText t)) = none := by
      rw [List.find?_eq_none, hany]
      intro s hs
      have hall : ∀ s ∈ order, ¬ s.includes .any = true := by decide
      exact hall s (hperm.mem_iff.mp hs)
    rw [hnone, hany, Option.getD_none]
  · -- the shape of the text is somewhere in the list, so the question is what comes before it
    have hmem := hperm.mem_iff.mpr (mem_order_of_ofText_ne_any hany)
    obtain ⟨before, behind, hsplit, hfirst⟩ := List.eq_append_cons_of_mem hmem
    have hfind : tried.find? (·.includes (ofText t)) = some (ofText t) := by
      refine List.find?_eq_some_iff_append.mpr
        ⟨includes_iff.mpr (.inl rfl), before, behind, hsplit, fun s hs => ?_⟩
      rw [Bool.not_eq_true', ← Bool.not_eq_true, includes_iff]
      -- a shape that comes before and includes this one could only be that of the numbers
      rintro (rfl | ⟨rfl, hinteger⟩)
      · exact hfirst hs
      · rw [hinteger] at hsplit hfirst
        rw [hsplit, List.idxOf_append_of_mem hs, List.idxOf_append_of_notMem hfirst] at hlong
        have hlt := List.idxOf_lt_length_of_mem hs
        omega
    rw [hfind, Option.getD_some]

/-! ## Classification -/

/-- **The shape of a text in terms of the patterns.** A text has none of the shapes exactly if it is
no token as a whole; maps, lists, strings and numbers have no text in common, and the integers are
numbers. A shape is tried with its pattern, and in any order with the integers in front of the
numbers the first one that matches is the shape of the text. -/
theorem ofText_spec (t : Text) :
    (ofText t = .any ↔ ¬ token.Matches t)
      ∧ [Shape.map, .list, .string, .double].Pairwise
          (fun s other => ¬ (s.pattern.Matches t ∧ other.pattern.Matches t))
      ∧ (long.pattern.Matches t → double.pattern.Matches t)
      ∧ (∀ s ∈ order, s.accepts t = true ↔ s.pattern.Matches t)
      ∧ ∀ tried : List Shape, tried.Perm order → tried.idxOf .long < tried.idxOf .double →
          (tried.find? (·.accepts t)).getD .any = ofText t := by
  refine ⟨ofText_eq_any_iff, ?_, fun hlong => ?_, fun s hs => accepts_iff_matches hs,
    fun tried hperm hlong => find?_accepts hperm hlong t⟩
  · simp only [List.pairwise_cons, List.forall_mem_cons, List.not_mem_nil, false_imp_iff,
      implies_true, and_true, List.Pairwise.nil, ← ofText_eq_map_iff, ← ofText_eq_list_iff,
      ← ofText_eq_string_iff_matches, ← ofText_eq_long_or_double_iff]
    -- one text has one shape, and no two of these patterns belong to the same one
    cases ofText t <;> decide
  · exact ofText_eq_long_or_double_iff.mp (.inl (ofText_eq_long_iff.mpr hlong))

/-- Digits of another script, tried as a string first and as a map last. -/
theorem ofText_spec_digits :
    ∃ (t : Text) (tried : List Shape), t = "-\u0664\u0662".toList ∧ tried =
    [.string, .long, .double, .list, .map]
      ∧ tried.Perm order ∧ tried.idxOf .long < tried.idxOf .double ∧ double ∈ order
      ∧ long.pattern.Matches t ∧ double.pattern.Matches t ∧ double.accepts t = true
      ∧ (tried.find? (·.accepts t)).getD .any = .long := by
  let t : Text := "-\u0664\u0662".toList
  let tried : List Shape := [.string, .long, .double, .list, .map]
  have hshape : ofText t = .long := by decide
  have hperm : tried.Perm order := by decide
  have hmem : double ∈ order := by decide
  have hmatches := ofText_eq_long_iff.mp hshape
  obtain ⟨-, -, hnumber, haccepts, hany⟩ := ofText_spec t
  exact ⟨t, tried, rfl, rfl, hperm, by decide, hmem, hmatches, hnumber hmatches,
    (haccepts double hmem).mpr (hnumber hmatches), (hany tried hperm (by decide)).trans hshape⟩

end Shape

end StepPhrase
