import StepPhrase.Proofs.Reference.Nesting

/-!
# Names that do not refer to themselves

Where no name refers to itself by way of values, it does not matter which names are in use: a name
stands for one and the same text wherever it is referred to. These texts are given by equations, one
for each name, and no other texts satisfy them.

The names in use at a level are names that lead to it (`Level.IsLed`). So a name that the level
refers to cannot be among them without leading to itself, however often it has been replaced
elsewhere. What is shown of all such levels goes from the values inside to the level itself
(`Level.IsLed.induction`).

The equations read a value as expansion reads one inside: a quote protects nothing there. The text
that is expanded is read in another way, so it has no part in them.

* **`Level.IsLed.expansion_eq`** — a level comes to the same whatever led to it.
* **`Level.IsLed.expansion_eq_resolve`** — it is given by any solution of the equations.
* **`expand_of_isAcyclic`** — so there is one solution, and expansion puts it in place of each
  reference.
-/

namespace StepPhrase.Reference

open Relation (TransGen)

variable {scope : Scope} {name other value : Text}

/-! ## References between names

Only names with values count. A reference to a name without one stays as it is written, so it can be
part of no cycle. -/

/-- A name refers to another if a reference to that one is read in its value. Both have values: a
name without one ends the matter, for a reference to it stays as written. -/
def RefersTo (scope : Scope) (name other : Text) : Prop :=
  ∃ value, scope.lookup? name = some value ∧ .reference other ∈ chunks false false value
    ∧ (scope.lookup? other).isSome

/-- No name refers to itself, however indirectly. -/
def IsAcyclic (scope : Scope) : Prop := ∀ name, ¬ TransGen (RefersTo scope) name name

theorem isAcyclic_of_rank (rank : Text → Nat)
    (h : ∀ name other, RefersTo scope name other → rank other < rank name) : IsAcyclic scope := by
  have hlt : ∀ {name other}, TransGen (RefersTo scope) name other → rank other < rank name := by
    intro name other hleads
    induction hleads with
    | single hrefers => exact h _ _ hrefers
    | tail _ hrefers ih => exact Nat.lt_trans (h _ _ hrefers) ih
  exact fun name hcycle => Nat.lt_irrefl _ (hlt hcycle)

/-- The text that a chunk comes to, if each name with a value comes to what it is assigned. A
character comes to itself and a name without a value to its reference. -/
def resolve (scope : Scope) (assigned : Text → Text) : Chunk → Text
  | .char c => [c]
  | .reference name => if (scope.lookup? name).isSome then assigned name else written name

/-- Each name with a value is assigned its value, with what its references are assigned in their
places. -/
def IsAssignment (scope : Scope) (assigned : Text → Text) : Prop :=
  ∀ name value, scope.lookup? name = some value →
    assigned name = (chunks false false value).flatMap (resolve scope assigned)

/-! ## Levels and the names that lead to them

A level has the names in use that were replaced on the way to it. What is proved of a level has to
hold whichever these are, as long as each of them leads to the names that the level refers to. -/

namespace Level

variable {level : Level}

/-- Every name in use refers, perhaps indirectly, to all names that the level refers to. So a name
that were met again would refer to itself. -/
def IsLed (scope : Scope) (level : Level) : Prop :=
  ∀ used ∈ level.inUse, ∀ name, .reference name ∈ level.chunks → (scope.lookup? name).isSome →
    TransGen (RefersTo scope) used name

namespace IsLed

theorem inside (h : level.IsLed scope) (hmem : .reference name ∈ level.chunks)
    (hvalue : scope.lookup? name = some value) : (level.inside name value).IsLed scope := by
  intro used hused other hother hsome
  have hrefers : RefersTo scope name other := ⟨value, hvalue, hother, hsome⟩
  rcases List.mem_cons.mp hused with rfl | hused
  · exact .single hrefers
  · exact (h used hused name hmem (by rw [hvalue, Option.isSome_some])).tail hrefers

theorem free (h : level.IsLed scope) (hacyclic : IsAcyclic scope)
    (hmem : .reference name ∈ level.chunks)
    (hvalue : (scope.lookup? name).isSome) : name ∉ level.inUse :=
  fun hused => hacyclic name (h name hused name hmem hvalue)

theorem replacement_eq (h : level.IsLed scope) (hacyclic : IsAcyclic scope)
    (hmem : .reference name ∈ level.chunks) (hvalue : scope.lookup? name = some value) :
    level.replacement scope (.reference name) = (level.inside name value).expansion scope :=
  replacement_inside hvalue (h.free hacyclic hmem (by rw [hvalue, Option.isSome_some]))

/-- What holds of a level if it holds of the values inside it holds of all levels: with each level
there is a name less to replace. -/
theorem induction (hacyclic : IsAcyclic scope) {motive : (level : Level) → level.IsLed scope → Prop}
    (step : ∀ (level : Level) (h : level.IsLed scope),
      (∀ name value (hmem : .reference name ∈ level.chunks)
          (hvalue : scope.lookup? name = some value),
        motive (level.inside name value) (h.inside hmem hvalue)) → motive level h)
    (level : Level) (h : level.IsLed scope) : motive level h := by
  -- on the number of names with values that are not in use
  induction hn : (level.available scope).length using Nat.strongRecOn generalizing level with
  | ind n ih =>
    refine step level h fun name value hmem hvalue => ih _ ?_ _ (h.inside hmem hvalue) rfl
    have hfree := h.free hacyclic hmem (by rw [hvalue, Option.isSome_some])
    exact hn ▸ length_available_inside_lt hvalue hfree

/-- **A level comes to the same whatever led to it.** Two levels with the same chunks may have other
names in use, but neither of them refers to a name that it has in use. -/
theorem expansion_eq (hacyclic : IsAcyclic scope) {other : Level} (h : level.IsLed scope)
    (hother : other.IsLed scope) (hchunks : level.chunks = other.chunks) :
    level.expansion scope = other.expansion scope := by
  induction level, h using IsLed.induction hacyclic generalizing other with
  | step level h ih =>
    rw [expansion, expansion, ← hchunks]
    refine List.flatMap_congr fun chunk hchunk => ?_
    cases chunk with
    | char c => rfl
    | reference name =>
      cases hvalue : scope.lookup? name with
      | none => rw [replacement_unbound hvalue, replacement_unbound hvalue]
      | some value =>
        have hmem : .reference name ∈ other.chunks := hchunks ▸ hchunk
        rw [h.replacement_eq hacyclic hchunk hvalue, hother.replacement_eq hacyclic hmem hvalue]
        exact ih name value hchunk hvalue (hother.inside hmem hvalue) rfl

/-- **A level is given by any assignment**: each reference in it comes to what its name is assigned.
By induction over the levels inside, whose references have been replaced already. -/
theorem expansion_eq_resolve (hacyclic : IsAcyclic scope) {assigned : Text → Text}
    (hassigned : IsAssignment scope assigned) (h : level.IsLed scope) :
    level.expansion scope = level.chunks.flatMap (resolve scope assigned) := by
  induction level, h using IsLed.induction hacyclic with
  | step level h ih =>
    refine List.flatMap_congr fun chunk hchunk => ?_
    cases chunk with
    | char c => rfl
    | reference name =>
      cases hvalue : scope.lookup? name with
      | none => simp [replacement_unbound hvalue, resolve, hvalue]
      | some value =>
        rw [h.replacement_eq hacyclic hchunk hvalue, ih name value hchunk hvalue]
        simp [resolve, hvalue, hassigned name value hvalue, Level.chunks, Level.inside]

end IsLed

/-- The level of the value of a name by itself. -/
def ofName (name value : Text) : Level := ⟨[name], false, value⟩

theorem isLed_ofName (hvalue : scope.lookup? name = some value) :
    (ofName name value).IsLed scope := by
  intro used hused other hother hsome
  rw [List.mem_singleton.mp hused]
  exact .single ⟨value, hvalue, hother, hsome⟩

theorem isLed_outermost (t : Text) : (outermost t).IsLed scope :=
  fun _ hused => absurd hused List.not_mem_nil

end Level

theorem Reached.isLed {t : Text} {level : Level} (h : Reached scope t level) :
    level.IsLed scope := by
  induction h with
  | refl => exact Level.isLed_outermost t
  | tail _ hopens ih =>
    cases hopens with
    | inside hmem hvalue _ => exact ih.inside hmem hvalue

/-! ## Assignments

A name that is expanded by itself comes to some text, and these texts satisfy the equations. So
there are solutions, and as expansion is given by any solution there is only one. -/

/-- What each name comes to by itself: the expansion of its value. In an acyclic scope this does not
depend on where the name is met. -/
def assignment (scope : Scope) (name : Text) : Text :=
  match scope.lookup? name with
  | some value => (Level.ofName name value).expansion scope
  | none => written name

theorem assignment_eq (hvalue : scope.lookup? name = some value) :
    assignment scope name = (Level.ofName name value).expansion scope := by
  rw [assignment, hvalue]

/-- **The names come to an assignment.** A name by itself has only itself in use, and behind it
other levels have more; that this makes no difference is what `Level.IsLed.expansion_eq` says. -/
theorem isAssignment_assignment (hacyclic : IsAcyclic scope) :
    IsAssignment scope (assignment scope) := by
  intro name value hvalue
  have hled := Level.isLed_ofName hvalue
  rw [assignment_eq hvalue, Level.expansion]
  refine List.flatMap_congr fun chunk hchunk => ?_
  cases chunk with
  | char c => rfl
  | reference other =>
    cases hother : scope.lookup? other with
    | none => simp [Level.replacement_unbound hother, resolve, hother]
    | some inner =>
      rw [hled.replacement_eq hacyclic hchunk hother,
        (hled.inside hchunk hother).expansion_eq hacyclic (Level.isLed_ofName hother) rfl]
      simp [resolve, hother, assignment_eq hother]

theorem IsAssignment.eq (hacyclic : IsAcyclic scope) {assigned : Text → Text}
    (h : IsAssignment scope assigned) (hname : (scope.lookup? name).isSome) :
    assigned name = assignment scope name := by
  obtain ⟨value, hvalue⟩ := Option.isSome_iff_exists.mp hname
  rw [h name value hvalue, assignment_eq hvalue,
    (Level.isLed_ofName hvalue).expansion_eq_resolve hacyclic h]
  rfl

/-- **Where no name refers to itself, each name with a value stands for one text.** It is the value
with the texts of its references in their places, and there is only one way to assign such texts.
Expansion replaces each reference by the text of its name, in the text itself and at every level
inside, and no name is met that is in use. -/
theorem expand_of_isAcyclic (hacyclic : IsAcyclic scope) :
    ∃ assigned, IsAssignment scope assigned
      ∧ (∀ others, IsAssignment scope others →
          ∀ name, (scope.lookup? name).isSome → others name = assigned name)
      ∧ (∀ t, expand scope t = (chunks true false (dollarForm t)).flatMap (resolve scope assigned))
      ∧ ∀ t level, Reached scope t level →
          level.expansion scope = level.chunks.flatMap (resolve scope assigned)
            ∧ ∀ name, .reference name ∈ level.chunks → (scope.lookup? name).isSome →
              name ∉ level.inUse ∧ level.replacement scope (.reference name) = assigned name := by
  have hassigned := isAssignment_assignment hacyclic
  refine ⟨assignment scope, hassigned, fun others h name hname => h.eq hacyclic hname,
    fun t => ?_, ?_⟩
  · rw [expand_eq, (Level.isLed_outermost t).expansion_eq_resolve hacyclic hassigned]
    rfl
  · intro t level hreached
    have hled := hreached.isLed
    refine ⟨hled.expansion_eq_resolve hacyclic hassigned, fun name hmem hname => ?_⟩
    obtain ⟨value, hvalue⟩ := Option.isSome_iff_exists.mp hname
    refine ⟨hled.free hacyclic hmem hname, ?_⟩
    rw [hled.replacement_eq hacyclic hmem hvalue, assignment_eq hvalue]
    -- the value comes to the same here as by itself
    exact (hled.inside hmem hvalue).expansion_eq hacyclic (Level.isLed_ofName hvalue) rfl

/-- A name that is referred to directly and by way of another name. -/
theorem expand_of_isAcyclic_twice :
    ∃ scope assigned, IsAcyclic scope ∧ IsAssignment scope assigned
      ∧ assigned "page".toList = "b[b]".toList
      ∧ expand scope "${page} ${link} ${gone}".toList = "b[b] [b] ${gone}".toList := by
  let scope : Scope := ⟨.empty, ⟨[("page".toList, .string "${base}${link}".toList),
    ("link".toList, .string "[${base}]".toList), ("base".toList, .string "b".toList)]⟩⟩
  let rank : Text → Nat :=
    fun name => if name = "page".toList then 2 else if name = "link".toList then 1 else 0
  have hacyclic : IsAcyclic scope := by
    refine isAcyclic_of_rank rank fun name other ⟨value, hvalue, hmem, _⟩ => ?_
    have hname : name ∈ scope.names := Scope.mem_names_iff.mpr (by rw [hvalue, Option.isSome_some])
    have hnames : scope.names = ["page".toList, "link".toList, "base".toList] := by decide +kernel
    simp only [hnames, List.mem_cons, List.not_mem_nil, or_false] at hname
    rcases hname with rfl | rfl | rfl
    · have hpage : scope.lookup? "page".toList = some "${base}${link}".toList := by decide +kernel
      obtain rfl := Option.some.inj (hpage.symm.trans hvalue)
      have hchunks : chunks false false "${base}${link}".toList =
          [.reference "base".toList, .reference "link".toList] := by
        decide +kernel
      rw [hchunks] at hmem
      have hother : other = "base".toList ∨ other = "link".toList := by simpa using hmem
      rcases hother with rfl | rfl <;> decide
    · have hlink : scope.lookup? "link".toList = some "[${base}]".toList := by decide +kernel
      obtain rfl := Option.some.inj (hlink.symm.trans hvalue)
      have hchunks : chunks false false "[${base}]".toList =
          [.char '[', .reference "base".toList, .char ']'] := by
        decide +kernel
      rw [hchunks] at hmem
      obtain rfl : other = "base".toList := by simpa using hmem
      decide
    · have hbase : scope.lookup? "base".toList = some "b".toList := by decide +kernel
      obtain rfl := Option.some.inj (hbase.symm.trans hvalue)
      have hchunks : chunks false false "b".toList = [.char 'b'] := by decide +kernel
      rw [hchunks] at hmem
      simp at hmem
  obtain ⟨assigned, hassigned, -, -, hlevels⟩ := expand_of_isAcyclic hacyclic
  have hpage := (hlevels "${page}".toList _ .refl).2 "page".toList (by decide +kernel)
    (by decide +kernel)
  have hreplaced : (outermost "${page}".toList).replacement scope (.reference "page".toList) =
      "b[b]".toList := by
    decide +kernel
  exact ⟨scope, assigned, hacyclic, hassigned, hpage.2.symm.trans hreplaced, by decide +kernel⟩

end StepPhrase.Reference
