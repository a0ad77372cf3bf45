import StepPhrase.Json.Writer

/-!
# Bindings

Names bound to values: the properties of a project and the variables of a call. `Bindings.get?` is
all that can be seen of them, so setting a name hides what it was bound to before.
-/

namespace StepPhrase

/-- Names with the values that they are bound to. Of several entries with one name the first counts.
-/
structure Bindings where
  entries : List (Text × Json)
  deriving Repr, Inhabited

namespace Bindings

/-- No bindings. -/
def empty : Bindings := ⟨[]⟩

/-- The value that a name is bound to. Names are compared character by character, so those that
differ in case are different names. -/
def get? (b : Bindings) (name : Text) : Option Json := b.entries.lookup name

@[simp] theorem get?_empty (name : Text) : empty.get? name = none := rfl

/-- The bindings without a name. Every entry of the name goes, so that no earlier value comes back.
-/
def erase (b : Bindings) (name : Text) : Bindings := ⟨b.entries.filter (·.1 ≠ name)⟩

theorem get?_erase (b : Bindings) (name other : Text) :
    (b.erase name).get? other = if other = name then none else b.get? other := by
  obtain ⟨entries⟩ := b
  simp only [get?, erase]
  induction entries with
  | nil => simp
  | cons entry entries ih =>
    obtain ⟨key, value⟩ := entry
    by_cases hkey : key = name
    · subst hkey
      rw [List.filter_cons_of_neg (by simp), ih]
      by_cases hother : other = key
      · simp [hother]
      · have hne : (other == key) = false := beq_eq_false_iff_ne.mpr hother
        simp [List.lookup_cons, hother, hne]
    · rw [List.filter_cons_of_pos (by simpa using hkey), List.lookup_cons, List.lookup_cons]
      by_cases hother : other = key
      · subst hother
        simp [hkey]
      · have hne : (other == key) = false := beq_eq_false_iff_ne.mpr hother
        simp only [hne, ih]

/-- The bindings with a name bound to a value, which hides what it was bound to before. Other names
keep their values. -/
def set (b : Bindings) (name : Text) (value : Json) : Bindings :=
  ⟨(name, value) :: (b.erase name).entries⟩

theorem get?_set (b : Bindings) (name other : Text) (value : Json) :
    (b.set name value).get? other = if other = name then some value else b.get? other := by
  by_cases h : other = name
  · simp [get?, set, h]
  · have hne : (other == name) = false := beq_eq_false_iff_ne.mpr h
    have herase := get?_erase b name other
    rw [if_neg h] at herase ⊢
    rw [← herase]
    simp [get?, set, List.lookup_cons, hne]

/-- The bindings after setting some names one after another, so of two entries with one name the
later one holds. -/
def setAll (b : Bindings) (entries : List (Text × Json)) : Bindings :=
  entries.foldl (fun b (name, value) => b.set name value) b

/-- The bindings of some names; the last value of a name counts. -/
def ofList (entries : List (Text × Json)) : Bindings := empty.setAll entries

/-- The names that are bound. -/
def names (b : Bindings) : List Text := b.entries.map Prod.fst

end Bindings

end StepPhrase
