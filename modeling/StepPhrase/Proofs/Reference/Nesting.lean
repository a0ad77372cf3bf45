import Mathlib.Data.List.Nodup
import Mathlib.Data.List.Perm.Basic
import Mathlib.Logic.Relation
import StepPhrase.Reference.Expansion

/-!
# Nesting of expansions

A value may hold references of its own, so an expansion opens further ones inside it: levels. A
level knows the names that are being replaced around it. No name is among them twice and all of them
have values, so there are never more levels inside one another than there are names, and one for the
text itself.

`Expands` says what an expansion comes to reference by reference, with the names in use as a stack
and nothing that makes it end.

The definition of expansion counts the names that are left, so that it ends by its own making. What
has to be shown is that the count is not felt: a reference is left as it is written because its name
is in use, and never because there was nothing left to count.

* **`Opens.isSound`**, **`Reached.isSound`** — the names in use, for one level and for all that are
  reached.
* **`Level.expands_expansion`** — a level needs no more levels inside it than there are names left.
* **`expand_terminates`** — so it ends, with `expand` as its result.
-/

namespace StepPhrase.Reference

/-! ## Names

The names of a scope are listed without repetition, so that they can be counted. -/

theorem nodup_eraseDups (l : List Text) : l.eraseDups.Nodup := by
  induction hn : l.length using Nat.strongRecOn generalizing l with
  | ind n ih =>
    cases l with
    | nil => exact List.nodup_nil
    | cons name l =>
      have hshort : (l.filter fun other => !other == name).length < n := by
        have := List.length_filter_le (fun other => !other == name) l
        simp only [List.length_cons] at hn
        omega
      rw [List.eraseDups_cons, List.nodup_cons]
      refine ⟨?_, ih _ hshort _ rfl⟩
      simp

namespace Scope

variable {scope : Scope} {name : Text}

theorem mem_names_iff : name ∈ scope.names ↔ (scope.lookup? name).isSome := by
  simp [names, lookup?, Bindings.names, Bindings.get?, List.lookup_isSome_iff]

theorem nodup_names : scope.names.Nodup := nodup_eraseDups _

end Scope

/-! ## Levels

A level is what the expansion of one text inside another has to know. The names in use and the names
that are available make up the names of the scope. -/

/-- A text that is being expanded, with what its expansion depends on. Levels are stacked inside one
another as references are replaced. -/
structure Level where
  /-- The names that are being replaced around it, the innermost first. -/
  inUse : List Text
  /-- Whether a quote protects a reference. -/
  protects : Bool
  text : Text

variable {scope : Scope} {t name value : Text}

/-- The level of a text itself. -/
def outermost (t : Text) : Level := ⟨[], true, dollarForm t⟩

namespace Level

variable {level inner : Level}

/-- The level of the value of a name, inside the level that refers to the name. Values are not
protected by quotes, and their angle brackets are no parameters. -/
def inside (level : Level) (name value : Text) : Level := ⟨name :: level.inUse, false, value⟩

/-- The chunks of a level. -/
def chunks (level : Level) : List Chunk := Reference.chunks level.protects false level.text

/-- The names that may still be replaced: those with a value that are not in use. With each level
inside there is one fewer. -/
def available (scope : Scope) (level : Level) : List Text :=
  scope.names.filter fun name => name ∉ level.inUse

/-- The names in use are names with a value, each once, so there are never more levels around a
level than there are names. -/
structure IsSound (scope : Scope) (level : Level) : Prop where
  nodup : level.inUse.Nodup
  subset : level.inUse ⊆ scope.names

theorem isSound_outermost (scope : Scope) (t : Text) : (outermost t).IsSound scope :=
  ⟨List.nodup_nil, List.nil_subset _⟩

theorem IsSound.inside (h : level.IsSound scope) (hvalue : scope.lookup? name = some value)
    (hfree : name ∉ level.inUse) : (level.inside name value).IsSound scope := by
  have hname : name ∈ scope.names := Scope.mem_names_iff.mpr (by rw [hvalue, Option.isSome_some])
  exact ⟨List.nodup_cons.mpr ⟨hfree, h.nodup⟩, List.cons_subset.mpr ⟨hname, h.subset⟩⟩

theorem IsSound.length_add (h : level.IsSound scope) :
    level.inUse.length + (level.available scope).length = scope.names.length := by
  -- the names in use are some of the names of the scope, in another order
  have hused : (scope.names.filter (· ∈ level.inUse)).Perm level.inUse := by
    rw [List.perm_ext_iff_of_nodup (Scope.nodup_names.filter _) h.nodup]
    intro name
    simpa using fun hname => h.subset hname
  rw [← hused.length_eq, available]
  have hsplit := List.length_eq_length_filter_add (l := scope.names)
    (fun name => name ∈ level.inUse)
  simp only [decide_not] at hsplit ⊢
  omega

theorem mem_available (hvalue : scope.lookup? name = some value) (hfree : name ∉ level.inUse) :
    name ∈ level.available scope := by
  have hname : name ∈ scope.names := Scope.mem_names_iff.mpr (by rw [hvalue, Option.isSome_some])
  exact List.mem_filter.mpr ⟨hname, by simpa using hfree⟩

theorem available_inside (level : Level) (name value : Text) :
    (level.inside name value).available scope = (level.available scope).erase name := by
  rw [available, available, (Scope.nodup_names.filter _).erase_eq_filter, List.filter_filter]
  congr 1
  funext other
  by_cases hname : other = name <;> simp [inside, hname]

theorem length_available_inside_lt (hvalue : scope.lookup? name = some value)
    (hfree : name ∉ level.inUse) :
    ((level.inside name value).available scope).length < (level.available scope).length := by
  have hname := mem_available hvalue hfree
  have hpos := List.length_pos_of_mem hname
  rw [available_inside, List.length_erase_of_mem hname]
  omega

end Level

/-! ## What chunks are replaced by

Every chunk is replaced by itself, so a level is replaced chunk by chunk and four things can happen:
a character, a name without a value, a name in use, and a value to be expanded inside. -/

/-- The text that a chunk is replaced by where some names are available. -/
def replacement (scope : Scope) (available : List Text) : Chunk → Text
  | .char c => [c]
  | .reference name =>
    match scope.lookup? name with
    | none => written name
    | some value =>
      if name ∈ available then expandWith scope (available.erase name) false value else written name

theorem expandWith_eq (available : List Text) (protects : Bool) :
    expandWith scope available protects t =
      (chunks protects false t).flatMap (replacement scope available) := by
  rw [expandWith]
  congr 1

namespace Level

variable {level : Level}

/-- The text that a chunk of a level is replaced by. -/
def replacement (scope : Scope) (level : Level) : Chunk → Text :=
  Reference.replacement scope (level.available scope)

/-- A level with its references replaced. -/
def expansion (scope : Scope) (level : Level) : Text :=
  level.chunks.flatMap (level.replacement scope)

theorem flatMap_map_char (t : Text) : (t.map .char).flatMap (level.replacement scope) = t := by
  rw [List.flatMap_map]
  exact List.flatMap_singleton' t

theorem replacement_unbound (hvalue : scope.lookup? name = none) :
    level.replacement scope (.reference name) = written name := by
  simp only [replacement, Reference.replacement, hvalue]

theorem replacement_inUse (hused : name ∈ level.inUse) :
    level.replacement scope (.reference name) = written name := by
  have hname : name ∉ level.available scope := fun hmem => by simp [available, hused] at hmem
  simp only [replacement, Reference.replacement, if_neg hname]
  split <;> rfl

theorem replacement_inside (hvalue : scope.lookup? name = some value) (hfree : name ∉ level.inUse) :
    level.replacement scope (.reference name) = (level.inside name value).expansion scope := by
  simp only [replacement, Reference.replacement, hvalue, if_pos (mem_available hvalue hfree)]
  rw [expandWith_eq, expansion, replacement, available_inside]
  rfl

end Level

theorem expand_eq (scope : Scope) (t : Text) : expand scope t = (outermost t).expansion scope := by
  have hall : (outermost t).available scope = scope.names := by simp [Level.available, outermost]
  rw [expand, expandWith_eq, Level.expansion, Level.replacement, hall]
  rfl

/-! ## Runs

A run has the four cases as rules and a bound on how deep it may go. It says what comes out and not
how it is found, so that two runs from the same place can be compared. -/

/-- What the chunks of a level come to, with at most so many levels inside one another. There is one
rule for each way in which a chunk can be dealt with, and none for going deeper than allowed. -/
inductive Expands (scope : Scope) : Nat → List Text → List Chunk → Text → Prop
  | nil {depth inUse} : Expands scope (depth + 1) inUse [] []
  | char {depth inUse c chunks out} (hrest : Expands scope (depth + 1) inUse chunks out) :
      Expands scope (depth + 1) inUse (.char c :: chunks) (c :: out)
  | unbound {depth inUse name chunks out} (hvalue : scope.lookup? name = none)
      (hrest : Expands scope (depth + 1) inUse chunks out) :
      Expands scope (depth + 1) inUse (.reference name :: chunks) (written name ++ out)
  | cycle {depth inUse name value chunks out} (hvalue : scope.lookup? name = some value)
      (hused : name ∈ inUse) (hrest : Expands scope (depth + 1) inUse chunks out) :
      Expands scope (depth + 1) inUse (.reference name :: chunks) (written name ++ out)
  | value {depth inUse name value chunks replaced out} (hvalue : scope.lookup? name = some value)
      (hfree : name ∉ inUse)
      (hinside : Expands scope depth (name :: inUse) (Reference.chunks false false value) replaced)
      (hrest : Expands scope (depth + 1) inUse chunks out) :
      Expands scope (depth + 1) inUse (.reference name :: chunks) (replaced ++ out)

/-- Runs come to the same from the same place, whatever depth they are given. By induction over one
of them; the other has to take the same rule at each chunk. -/
theorem Expands.eq {depth depth' : Nat} {inUse : List Text} {cs : List Chunk} {out out' : Text}
    (h : Expands scope depth inUse cs out) (h' : Expands scope depth' inUse cs out') :
    out = out' := by
  induction h generalizing depth' out' with
  | nil =>
    cases h'
    rfl
  | char _ ih =>
    cases h' with
    | char hrest => rw [ih hrest]
  | unbound hvalue _ ih =>
    cases h' with
    | unbound _ hrest => rw [ih hrest]
    | cycle hvalue' => simp [hvalue] at hvalue'
    | value hvalue' => simp [hvalue] at hvalue'
  | cycle hvalue hused _ ih =>
    cases h' with
    | unbound hvalue' => simp [hvalue] at hvalue'
    | cycle _ _ hrest => rw [ih hrest]
    | value _ hfree => exact absurd hused hfree
  | value hvalue hfree _ _ ihInside ih =>
    cases h' with
    | unbound hvalue' => simp [hvalue] at hvalue'
    | cycle _ hused => exact absurd hused hfree
    | value hvalue' _ hinside hrest =>
      obtain rfl := Option.some.inj (hvalue.symm.trans hvalue')
      rw [ihInside hinside, ih hrest]

namespace Level

variable {level : Level}

/-- Chunks of a level are replaced one by one, given what the values inside come to. -/
theorem expands_flatMap {depth : Nat} {level : Level}
    (hinside : ∀ name value, scope.lookup? name = some value → name ∉ level.inUse →
      Expands scope depth (name :: level.inUse) (level.inside name value).chunks
        ((level.inside name value).expansion scope)) (cs : List Chunk) :
    Expands scope (depth + 1) level.inUse cs (cs.flatMap (level.replacement scope)) := by
  induction cs with
  | nil => exact .nil
  | cons chunk cs ih =>
    rw [List.flatMap_cons]
    cases chunk with
    | char c => exact .char ih
    | reference name =>
      cases hvalue : scope.lookup? name with
      | none =>
        rw [replacement_unbound hvalue]
        exact .unbound hvalue ih
      | some value =>
        by_cases hused : name ∈ level.inUse
        · rw [replacement_inUse hused]
          exact .cycle hvalue hused ih
        · rw [replacement_inside hvalue hused]
          exact .value hvalue hused (hinside name value hvalue hused) ih

/-- A level needs one level for each name that is available, besides itself. By induction on the
number of these, which is one less inside a value. -/
theorem expands_expansion (scope : Scope) (level : Level) :
    Expands scope ((level.available scope).length + 1) level.inUse level.chunks
      (level.expansion scope) := by
  induction hn : (level.available scope).length generalizing level with
  | zero =>
    refine expands_flatMap (fun name value hvalue hfree => ?_) _
    -- with no name available every reference is left as it is written
    have hmem := mem_available hvalue hfree
    rw [List.length_eq_zero_iff] at hn
    simp [hn] at hmem
  | succ n ih =>
    refine expands_flatMap (fun name value hvalue hfree => ?_) _
    have hmem := mem_available hvalue hfree
    refine ih (level.inside name value) ?_
    rw [available_inside, List.length_erase_of_mem hmem, hn, Nat.add_sub_cancel]

end Level

/-! ## Levels that are reached

A level is opened by a reference in another one. What one opening keeps is kept along all of them,
from the text itself to whatever is inside. -/

/-- One level opens another: it holds a reference to a name that has a value and is not in use. -/
inductive Opens (scope : Scope) : Level → Level → Prop
  | inside {level : Level} {name value : Text} (hmem : .reference name ∈ level.chunks)
      (hvalue : scope.lookup? name = some value) (hfree : name ∉ level.inUse) :
      Opens scope level (level.inside name value)

/-- The levels of the expansion of a text, which are those that can be opened from the outermost
one. -/
def Reached (scope : Scope) (t : Text) : Level → Prop :=
  Relation.ReflTransGen (Opens scope) (outermost t)

theorem Opens.isSound {level inner : Level} (h : Opens scope level inner)
    (hsound : level.IsSound scope) :
    inner.IsSound scope := by
  cases h with
  | inside _ hvalue hfree => exact hsound.inside hvalue hfree

theorem Reached.isSound {level : Level} (h : Reached scope t level) : level.IsSound scope := by
  induction h with
  | refl => exact Level.isSound_outermost scope t
  | tail _ hopens ih => exact hopens.isSound ih

theorem Reached.eq_outermost_or {level : Level} (h : Reached scope t level) :
    level = outermost t
      ∨ level.protects = false ∧ level.inUse ≠ [] ∧ ∃ name, scope.lookup? name =
        some level.text := by
  cases h with
  | refl => exact .inl rfl
  | tail _ hopens =>
    cases hopens with
    | inside _ hvalue => exact .inr ⟨rfl, List.cons_ne_nil _ _, _, hvalue⟩

/-- **Expansion ends.** Run with nothing but a stack of names in use, it comes to `expand` and to
nothing else, with at most one level more inside one another than there are names with a value. The
names in use are different ones at every level that is reached, and all of them have values. -/
theorem expand_terminates (scope : Scope) (t : Text) :
    Expands scope (scope.names.length + 1) [] (outermost t).chunks (expand scope t)
      ∧ (∀ depth out, Expands scope depth [] (outermost t).chunks out → out = expand scope t)
      ∧ scope.names.Nodup ∧ (∀ name, name ∈ scope.names ↔ (scope.lookup? name).isSome)
      ∧ ∀ level, Reached scope t level →
        level.inUse.Nodup ∧ (∀ name ∈ level.inUse, (scope.lookup? name).isSome)
          ∧ level.inUse.length + 1 ≤ scope.names.length + 1
          ∧ Expands scope (scope.names.length + 1 - level.inUse.length) level.inUse level.chunks
              (level.expansion scope) := by
  have hrun := Level.expands_expansion scope (outermost t)
  have hnames := (Level.isSound_outermost scope t).length_add
  -- around the text itself no name is in use, so all of them are available
  have hdepth : ((outermost t).available scope).length = scope.names.length := by
    rw [← hnames, outermost, List.length_nil, Nat.zero_add]
  rw [hdepth, ← expand_eq] at hrun
  refine ⟨hrun, fun depth out h => h.eq hrun, Scope.nodup_names,
    fun name => Scope.mem_names_iff, ?_⟩
  intro level hreached
  have hsound := hreached.isSound
  have hlength := hsound.length_add
  refine ⟨hsound.nodup, fun name hname => Scope.mem_names_iff.mp (hsound.subset hname),
    by omega, ?_⟩
  have hinner := Level.expands_expansion scope level
  have hroom : (level.available scope).length + 1 =
      scope.names.length + 1 - level.inUse.length := by
    omega
  rwa [hroom] at hinner

/-- Two names with values that refer to each other are both in use at once, and there it ends: the
reference back to the first one stays as written. -/
theorem expand_terminates_cycle :
    ∃ scope level, scope.names = ["a".toList, "b".toList]
      ∧ scope.lookup? "a".toList = some "x${b}".toList
      ∧ scope.lookup? "b".toList = some "y${a}".toList
      ∧ Reached scope "${a}".toList level ∧ level.inUse = ["b".toList, "a".toList]
      ∧ level.inUse.length + 1 ≤ scope.names.length + 1
      ∧ Expands scope 3 [] (outermost "${a}".toList).chunks "xy${a}".toList := by
  let scope : Scope :=
    ⟨.empty, ⟨[("a".toList, .string "x${b}".toList), ("b".toList, .string "y${a}".toList)]⟩⟩
  let middle : Level := (outermost "${a}".toList).inside "a".toList "x${b}".toList
  have hmiddle : Opens scope (outermost "${a}".toList) middle :=
    .inside (by decide +kernel) (by decide +kernel) (by decide)
  have hinner : Opens scope middle (middle.inside "b".toList "y${a}".toList) :=
    .inside (by decide +kernel) (by decide +kernel) (by decide)
  have hreached : Reached scope "${a}".toList (middle.inside "b".toList "y${a}".toList) :=
    .tail (.tail .refl hmiddle) hinner
  have hout : expand scope "${a}".toList = "xy${a}".toList := by decide +kernel
  obtain ⟨hrun, -, -, -, hlevels⟩ := expand_terminates scope "${a}".toList
  rw [hout] at hrun
  exact ⟨scope, _, by decide +kernel, by decide +kernel, by decide +kernel, hreached, rfl,
    (hlevels _ hreached).2.2.1, hrun⟩

end StepPhrase.Reference
