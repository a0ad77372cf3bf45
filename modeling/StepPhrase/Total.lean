/-!
# Totals

The length of a text in bytes, the offset of a slot and the number of literal characters of a
template are totals: each member of a list counts for some number, and the numbers add up.
-/

namespace StepPhrase

/-- The sum of what the members of a list count for. -/
def total {α : Type} (measure : α → Nat) (members : List α) : Nat :=
  members.foldr (fun member sum => measure member + sum) 0

@[simp] theorem total_nil {α : Type} (measure : α → Nat) : total measure [] = 0 := rfl

@[simp] theorem total_cons {α : Type} (measure : α → Nat) (member : α) (members : List α) :
    total measure (member :: members) = measure member + total measure members := rfl

@[simp] theorem total_append {α : Type} (measure : α → Nat) (front back : List α) :
    total measure (front ++ back) = total measure front + total measure back := by
  induction front with
  | nil => simp
  | cons member front ih => simp [ih, Nat.add_assoc]

/-- A change of the members that no member's measure shows does not show in the total. -/
theorem total_map_eq {α : Type} {measure : α → Nat} {change : α → α}
    (h : ∀ member, measure (change member) = measure member) (members : List α) :
    total measure (members.map change) = total measure members := by
  induction members with
  | nil => rfl
  | cons member members ih => rw [List.map_cons, total_cons, total_cons, h, ih]

end StepPhrase
