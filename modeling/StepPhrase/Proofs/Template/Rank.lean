import Mathlib.Order.Defs.LinearOrder
import StepPhrase.Template.Rank

/-!
# Ranks are in a line

`Rank.compare` looks at three numbers, one of them the other way round. It is still a linear order:
any two ranks compare, and ranks that compare as equal are equal (`LawfulEqCmp`). `Rank.lt_iff`
spells out when a rank is lower than another.

More literal characters come first, then fewer slots, then more slots with an index. A lookup
compares ranks in one direction only and keeps the first of equals, so it matters that equal ranks
are those which compare as equal.
-/

namespace StepPhrase.Template.Rank

open Std

instance : TransCmp compare :=
  inferInstanceAs (TransCmp (compareLex (compareOn literalChars)
    (compareLex (fun a b => compareOn slots b a) (compareOn indexedSlots))))

instance : LawfulEqCmp compare where
  eq_of_compare {a b} h := by
    simp only [compare, Ordering.then_eq_eq, Nat.compare_eq_eq] at h
    obtain ⟨hliteral, hslots, hindexed⟩ := h
    cases a
    cases b
    cases hliteral
    cases hslots
    cases hindexed
    rfl

theorem compare_swap (a b : Rank) : a.compare b = (b.compare a).swap := OrientedCmp.eq_swap

instance : LE Rank := ⟨fun a b => (a.compare b).isLE = true⟩

instance : LT Rank := ⟨fun a b => a.compare b = .lt⟩

/-- **Ranks are linearly ordered**, and greater is more specific. -/
instance : LinearOrder Rank where
  le_refl _ := ReflCmp.isLE_rfl
  le_trans _ _ _ := TransCmp.isLE_trans
  le_antisymm _ _ hab hba := LawfulEqCmp.eq_of_compare (OrientedCmp.isLE_antisymm hab hba)
  le_total a b := by
    show (a.compare b).isLE = true ∨ (b.compare a).isLE = true
    rw [compare_swap b a]
    cases a.compare b <;> decide
  lt_iff_le_not_ge a b := by
    show a.compare b = .lt ↔ (a.compare b).isLE = true ∧ ¬(b.compare a).isLE = true
    rw [compare_swap b a]
    cases a.compare b <;> decide
  toDecidableLE a b := inferInstanceAs (Decidable ((a.compare b).isLE = true))

theorem isGE_compare_iff {a b : Rank} : (a.compare b).isGE = true ↔ b ≤ a :=
  OrientedCmp.isGE_iff_isLE

theorem lt_iff {a b : Rank} :
    a < b ↔ a.literalChars < b.literalChars
      ∨ a.literalChars = b.literalChars ∧ (b.slots < a.slots
        ∨ b.slots = a.slots ∧ a.indexedSlots < b.indexedSlots) := by
  show a.compare b = .lt ↔ _
  simp only [compare, Ordering.then_eq_lt, Nat.compare_eq_lt, Nat.compare_eq_eq]

end StepPhrase.Template.Rank
