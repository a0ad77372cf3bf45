import Mathlib.Data.List.Basic
import Mathlib.Data.List.Induction
import StepPhrase.CommandLine.Run
import StepPhrase.Proofs.CommandLine.Words

/-!
# Layers of names

The names that a run knows come from three places: variables of the environment, properties among
the options, and the variables of an interpolation. Each place is a list in which the last entry for
a name counts, and a later place hides an earlier one. Names are taken from the environment as they
are, and without the blanks around them from options.

A name is bound by the last entry for it in each place, which is the first one from the end. So a
look-up in the bindings that were built entry by entry is a look-up in the reversed list, and layers
are one list behind another.

* **`Bindings.get?_setAll`** — the last of several values for a name is the one that is found.
* **`get?_propertiesOf`**, **`get?_variablesOf`** — what a run finds under a name.
* **`run_layered`** — the same for a whole command line, whatever the order of its words.
-/

namespace StepPhrase

variable {α β : Type} {k t : Text} {value : Json}

/-- The last member of a list that gives anything gives this. Members behind it may be of other
kinds, but none of them gives anything at all. -/
def IsLast (gives : α → β → Prop) (l : List α) (b : β) : Prop :=
  ∃ before a after, l = before ++ a :: after ∧ gives a b ∧ ∀ other ∈ after, ∀ b', ¬gives other b'

section IsLast

variable {gives other : α → β → Prop} {f : α → Option (Text × β)} {l : List α} {b : β}

theorem isLast_congr (h : ∀ a ∈ l, ∀ b, gives a b ↔ other a b) :
    IsLast gives l b ↔ IsLast other l b := by
  refine exists_congr fun before => exists_congr fun a => exists_congr fun after => ?_
  refine and_congr_right fun hl => ?_
  rw [hl] at h
  refine and_congr (h a (by simp) b) (forall_congr' fun a' => forall_congr' fun ha' => ?_)
  exact forall_congr' fun b' => not_congr (h a' (by simp [ha']) b')

theorem isLast_map {γ : Type} {make : β → γ} {c : γ} :
    IsLast (fun a c => ∃ b, gives a b ∧ make b = c) l c ↔ ∃ b, IsLast gives l b ∧ make b = c := by
  constructor
  · rintro ⟨before, a, after, hl, ⟨b, hgives, rfl⟩, hafter⟩
    exact ⟨b, ⟨before, a, after, hl, hgives,
      fun other hother b' hb' => hafter other hother (make b') ⟨b', hb', rfl⟩⟩, rfl⟩
  · rintro ⟨b, ⟨before, a, after, hl, hgives, hafter⟩, rfl⟩
    refine ⟨before, a, after, hl, ⟨b, hgives, rfl⟩, ?_⟩
    rintro other hother - ⟨b', hb', rfl⟩
    exact hafter other hother b' hb'

theorem isLast_concat {a : α} :
    IsLast gives (l ++ [a]) b ↔ gives a b ∨ (∀ b', ¬gives a b') ∧ IsLast gives l b := by
  constructor
  · rintro ⟨before, member, after, heq, hgives, hafter⟩
    -- what was added is the last member itself, or else it gives nothing
    rcases List.eq_nil_or_concat after with rfl | ⟨after, last, rfl⟩
    · obtain rfl := List.singleton_inj.mp (List.append_inj' heq rfl).2
      exact .inl hgives
    · rw [List.concat_eq_append, ← List.cons_append, ← List.append_assoc] at heq
      obtain ⟨rfl, hlast⟩ := List.append_inj' heq rfl
      obtain rfl := List.singleton_inj.mp hlast
      exact .inr ⟨hafter a (by simp), before, member, after, rfl, hgives,
        fun other hother => hafter other (by simp [hother])⟩
  · rintro (hgives | ⟨hnone, before, member, after, rfl, hgives, hafter⟩)
    · exact ⟨l, a, [], rfl, hgives, by simp⟩
    · refine ⟨before, member, after ++ [a], by simp, hgives, fun other hother => ?_⟩
      rcases List.mem_append.mp hother with hother | hother
      · exact hafter other hother
      · rwa [List.mem_singleton.mp hother]

/-- **The last entry for a name is found when the entries are gone through from the end.** Members
of the list that are no entries are passed over, here and there. -/
theorem lookup_reverse_eq_some_iff :
    (l.filterMap f).reverse.lookup k = some b ↔ IsLast (fun a b => f a = some (k, b)) l b := by
  induction l using List.reverseRecOn with
  | nil => simp [IsLast]
  | append_singleton l a ih =>
    rw [isLast_concat, ← ih, List.filterMap_append, List.reverse_append]
    cases hentry : f a with
    | none => simp [hentry]
    | some entry =>
      obtain ⟨name, found⟩ := entry
      -- from the end the entry that was added comes first
      by_cases hname : k = name
      · simp [hentry, hname]
      · have hne : (k == name) = false := beq_eq_false_iff_ne.mpr hname
        simp [hentry, List.lookup_cons, hne, Ne.symm hname]

theorem lookup_reverse_eq_none_iff :
    (l.filterMap f).reverse.lookup k = none ↔ ∀ a ∈ l, ∀ b, f a ≠ some (k, b) := by
  rw [List.lookup_eq_none_iff]
  constructor
  · intro h a ha b hb
    exact absurd rfl (bne_iff_ne.mp (h (k, b) (by simpa using ⟨a, ha, hb⟩)))
  · intro h entry hentry
    obtain ⟨a, ha, heq⟩ := List.mem_filterMap.mp (List.mem_reverse.mp hentry)
    rw [bne_iff_ne]
    rintro rfl
    exact h a ha entry.2 heq

end IsLast

/-! ## Bindings

Setting a name replaces what it had. What is found after some settings is found in them from the
end, and if it is not there in what was bound before. -/

/-- **The last value set for a name is found**, and if none is set what was found before. -/
theorem Bindings.get?_setAll (b : Bindings) (entries : List (Text × Json)) (k : Text) :
    (b.setAll entries).get? k = (entries.reverse.lookup k).or (b.get? k) := by
  induction entries using List.reverseRecOn with
  | nil => rfl
  | append_singleton entries entry ih =>
    obtain ⟨name, value⟩ := entry
    rw [setAll, List.foldl_concat, get?_set, List.reverse_concat, List.lookup_cons]
    by_cases hname : k = name
    · simp [hname]
    · rw [if_neg hname, beq_eq_false_iff_ne.mpr hname]
      exact ih

/-- A variable of the environment that sets a property: its name begins as all of them do, and what
follows, which must not be empty, is the name of the property. -/
theorem Environment.property?_eq_some_iff {name : Text} :
    property? name t = some (k, value) ↔
      k ≠ [] ∧ name = propertyStart ++ k ∧ value = .string t := by
  unfold property?
  split
  · next c rest hstart =>
    have hname := List.isPrefixOf?_eq_some_iff_append_eq.mp hstart
    rw [← hname, Option.some_inj, Prod.mk.injEq, List.append_cancel_left_eq]
    constructor
    · rintro ⟨rfl, rfl⟩
      exact ⟨List.cons_ne_nil c rest, rfl, rfl⟩
    · rintro ⟨-, rfl, rfl⟩
      exact ⟨rfl, rfl⟩
  · next hnone =>
    refine iff_of_false (by simp) ?_
    rintro ⟨hne, rfl, -⟩
    obtain ⟨c, rest, rfl⟩ := List.exists_cons_of_ne_nil hne
    exact hnone c rest (List.isPrefixOf?_eq_some_iff_append_eq.mpr rfl)

namespace CommandLine

/-! ## Assignments

An assignment is cut at its first equals sign, so a value may have more of them and a name has none.
Names lose the blanks around them, and one that is nothing but blanks is refused. -/

/-- The text behind the first equals sign, where the name in front of it is `k` without the blanks
around it. -/
def Assigns (k raw t : Text) : Prop := ∃ name, raw = name ++ '=' :: t ∧ '=' ∉ name ∧ name.trim = k

theorem assigns_append_iff {name text : Text} (hname : '=' ∉ name) :
    Assigns k (name ++ '=' :: text) t ↔ name.trim = k ∧ text = t := by
  constructor
  · rintro ⟨other, heq, hother, rfl⟩
    -- there is only one first equals sign
    have hcut := Text.cut?_eq_some_iff.mpr ⟨heq, hother⟩
    rw [Text.cut?_eq_some_iff.mpr ⟨rfl, hname⟩] at hcut
    obtain ⟨rfl, rfl⟩ := Prod.mk.inj (Option.some.inj hcut)
    exact ⟨rfl, rfl⟩
  · rintro ⟨rfl, rfl⟩
    exact ⟨name, rfl, hname, rfl⟩

theorem pair?_eq_some_iff {raw : Text} : pair? raw = some (k, t) ↔ k ≠ [] ∧ Assigns k raw t := by
  unfold pair?
  split
  · next name text hcut =>
    obtain ⟨rfl, hname⟩ := Text.cut?_eq_some_iff.mp hcut
    rw [assigns_append_iff hname, Option.ite_none_left_eq_some, Option.some_inj, Prod.mk.injEq]
    constructor
    · rintro ⟨hne, rfl, rfl⟩
      exact ⟨hne, rfl, rfl⟩
    · rintro ⟨hne, rfl, rfl⟩
      exact ⟨hne, rfl, rfl⟩
  · next hnone =>
    refine iff_of_false (by simp) ?_
    rintro ⟨-, name, rfl, hname, -⟩
    rw [Text.cut?_eq_some_iff.mpr ⟨rfl, hname⟩] at hnone
    cases hnone

theorem pair?_eq_some_iff_of_isSome {raw : Text} (h : (pair? raw).isSome = true) :
    pair? raw = some (k, t) ↔ Assigns k raw t := by
  rw [pair?_eq_some_iff]
  refine and_iff_right_of_imp ?_
  rintro ⟨name, rfl, hname, rfl⟩
  obtain ⟨⟨other, text⟩, hpair⟩ := Option.isSome_iff_exists.mp h
  obtain ⟨hne, hassigns⟩ := pair?_eq_some_iff.mp hpair
  rwa [((assigns_append_iff hname).mp hassigns).1]

section Lookup

variable {raws : List Text} {read : Text → Json}

theorem map_pair?_eq_some_iff {raw : Text} (h : (pair? raw).isSome = true) :
    ((pair? raw).map fun (name, t) => (name, read t)) = some (k, value) ↔
      ∃ t, Assigns k raw t ∧ read t = value := by
  simp only [Option.map_eq_some_iff, Prod.exists, Prod.mk.injEq]
  constructor
  · rintro ⟨_, t, hpair, rfl, hread⟩
    exact ⟨t, (pair?_eq_some_iff_of_isSome h).mp hpair, hread⟩
  · rintro ⟨t, hassigns, hread⟩
    exact ⟨k, t, (pair?_eq_some_iff_of_isSome h).mpr hassigns, rfl, hread⟩

variable (haccepted : ∀ raw ∈ raws, (pair? raw).isSome = true)
include haccepted

/-- **What some assignments bind a name to** is what the last one to it says. -/
theorem lookup_assigned_eq_some_iff :
    ((raws.filterMap pair?).map fun (name, t) => (name, read t)).reverse.lookup k = some value ↔
      ∃ t, IsLast (Assigns k) raws t ∧ read t = value := by
  rw [List.map_filterMap, lookup_reverse_eq_some_iff, ← isLast_map]
  exact isLast_congr fun raw hraw _ => map_pair?_eq_some_iff (haccepted raw hraw)

theorem lookup_assigned_eq_none_iff :
    ((raws.filterMap pair?).map fun (name, t) => (name, read t)).reverse.lookup k = none ↔
      ∀ raw ∈ raws, ∀ t, ¬Assigns k raw t := by
  rw [List.map_filterMap, lookup_reverse_eq_none_iff]
  refine forall_congr' fun raw => forall_congr' fun hraw => ?_
  simp only [Ne, map_pair?_eq_some_iff (haccepted raw hraw)]
  constructor
  · exact fun h t ht => h (read t) ⟨t, ht, rfl⟩
  · rintro h _ ⟨t, ht, -⟩
    exact h t ht

end Lookup

/-! ## Layers

What the bindings of a run hold under a name is said here by the lists that they are built from, in
the words of the user: the last assignment, or else the variable of the environment. -/

/-- A variable of the environment that sets property `k` to a text. Its name is the common beginning
and the name of the property, which is not changed in any way. -/
def SetsProperty (k : Text) (variableEntry : Text × Text) (t : Text) : Prop :=
  variableEntry = (Environment.propertyStart ++ k, t)

/-- What a property is: the last value that is assigned to it, or else the value of its variable of
the environment. -/
def IsProperty (environment : Environment) (properties : List Text) (k : Text)
    (value : Json) : Prop :=
  ∃ t, value = .string t ∧ (IsLast (Assigns k) properties t
    ∨ (∀ raw ∈ properties, ∀ t, ¬Assigns k raw t) ∧ k ≠ [] ∧ IsLast (SetsProperty k) environment t)

/-- What a variable is: the last value that is assigned to it, as JSON if it is that and else as a
string. -/
def IsVariable (assignments : List Text) (k : Text) (value : Json) : Prop :=
  ∃ t, IsLast (Assigns k) assignments t
    ∧ (Json.read? t = some value ∨ Json.read? t = none ∧ value = .string t)

variable {environment : Environment} {properties assignments : List Text}

theorem get?_properties_eq_some_iff :
    environment.properties.get? k = some value ↔
      ∃ t, (k ≠ [] ∧ IsLast (SetsProperty k) environment t) ∧ .string t = value := by
  rw [Environment.properties, Bindings.ofList, Bindings.get?_setAll, Bindings.get?_empty,
    Option.or_none, lookup_reverse_eq_some_iff]
  by_cases hk : k = []
  · refine iff_of_false ?_ ?_
    · rintro ⟨_, _, _, -, hsets, -⟩
      exact (Environment.property?_eq_some_iff.mp hsets).1 hk
    · rintro ⟨_, ⟨hne, -⟩, -⟩
      exact hne hk
  · simp only [ne_eq, hk, not_false_eq_true, true_and]
    rw [← isLast_map]
    refine isLast_congr fun (name, t) _ value => ?_
    simp only [Environment.property?_eq_some_iff, SetsProperty, Prod.mk.injEq]
    constructor
    · rintro ⟨-, rfl, rfl⟩
      exact ⟨t, ⟨rfl, rfl⟩, rfl⟩
    · rintro ⟨_, ⟨rfl, rfl⟩, rfl⟩
      exact ⟨hk, rfl, rfl⟩

/-- **A property comes from the options, or else from the environment.** From the environment a name
is taken as it stands, so one with blanks around it is another name there. -/
theorem get?_propertiesOf (haccepted : ∀ raw ∈ properties, (pair? raw).isSome = true) :
    (propertiesOf environment (properties.filterMap pair?)).get? k = some value ↔
      IsProperty environment properties k value := by
  rw [propertiesOf, Bindings.get?_setAll, Option.or_eq_some_iff,
    lookup_assigned_eq_some_iff haccepted,
    lookup_assigned_eq_none_iff haccepted, get?_properties_eq_some_iff, IsProperty]
  constructor
  · rintro (⟨t, hlast, rfl⟩ | ⟨hnone, t, ⟨hne, hlast⟩, rfl⟩)
    · exact ⟨t, rfl, .inl hlast⟩
    · exact ⟨t, rfl, .inr ⟨hnone, hne, hlast⟩⟩
  · rintro ⟨t, rfl, hlast | ⟨hnone, hne, hlast⟩⟩
    · exact .inl ⟨t, hlast, rfl⟩
    · exact .inr ⟨hnone, t, ⟨hne, hlast⟩, rfl⟩

theorem variableValue_eq_iff :
    variableValue t = value ↔ Json.read? t = some value ∨ Json.read? t = none ∧ value =
        .string t := by
  rw [variableValue]
  cases Json.read? t with
  | none => simp [eq_comm]
  | some read => simp

/-- **A variable comes from the assignments**, of which the last one to its name counts. The
environment has no part in it. -/
theorem get?_variablesOf (haccepted : ∀ raw ∈ assignments, (pair? raw).isSome = true) :
    (variablesOf (assignments.filterMap pair?)).get? k = some value ↔
      IsVariable assignments k value := by
  rw [variablesOf, Bindings.ofList, Bindings.get?_setAll, Bindings.get?_empty, Option.or_none,
    lookup_assigned_eq_some_iff haccepted]
  exact exists_congr fun t => and_congr_right fun _ => variableValue_eq_iff

theorem get?_variablesOf_eq_none_iff (haccepted : ∀ raw ∈ assignments, (pair? raw).isSome = true) :
    (variablesOf (assignments.filterMap pair?)).get? k = none ↔ ∀ raw ∈ assignments, ∀ t,
    ¬Assigns k raw t := by
  rw [variablesOf, Bindings.ofList, Bindings.get?_setAll, Bindings.get?_empty, Option.or_none,
    lookup_assigned_eq_none_iff haccepted]

/-- **A reference stands for a variable, or else for a property**, whatever the values are: a
variable hides a property of the same name even if it is the empty text. -/
theorem lookup?_layered (hproperties : ∀ raw ∈ properties, (pair? raw).isSome = true)
    (hassignments : ∀ raw ∈ assignments, (pair? raw).isSome = true) :
    Reference.Scope.lookup? ⟨variablesOf (assignments.filterMap pair?),
        propertiesOf environment (properties.filterMap pair?)⟩ k = some t ↔
      ∃ value : Json, value.text = t ∧ (IsVariable assignments k value
        ∨ (∀ raw ∈ assignments, ∀ t, ¬Assigns k raw t)
          ∧ IsProperty environment properties k value) := by
  rw [Reference.Scope.lookup?, Option.map_eq_some_iff]
  refine exists_congr fun value => ?_
  rw [and_comm, Option.or_eq_some_iff, get?_variablesOf hassignments,
    get?_variablesOf_eq_none_iff hassignments, get?_propertiesOf hproperties]

/-- **Where a run has its names from.** The options that set properties stand in front of the
command or behind it, in any order and among any other words; if there are some behind it, those in
front count for nothing. An interpolation looks into its variables first. -/
theorem run_layered {engine : Engine} {environment : Environment} {front inner : List Word}
    {name : CommandName} {command : Command} (hfront : ∀ word ∈ front, word.IsReadable none)
    (hinner : ∀ word ∈ inner, word.IsReadable (some name))
    (hproperties : ∀ raw ∈ valuesOf .property (front ++ inner), (pair? raw).isSome = true)
    (hassignments : ∀ raw ∈ valuesOf .var inner, (pair? raw).isSome = true)
    (hlevels : ∀ t ∈ valuesOf .logLevel (front ++ inner), (LogLevel.ofText? t).isSome = true)
    (honce : (valuesOf .logLevel front).length ≤ 1 ∧ (valuesOf .logLevel inner).length ≤ 1)
    (hask : Asks name (plains inner) ((valuesOf .var inner).filterMap pair?) command) :
    ∃ bundle : Bindings,
      (∀ message, LogLevel.ofEnvironment? environment = .error message →
          run engine (lineOf front name inner) environment = .invalidConfiguration message)
      ∧ (∀ level, LogLevel.ofEnvironment? environment = .ok level →
          run engine (lineOf front name inner) environment = runCommand engine environment bundle
            (((valuesInForce .logLevel front inner).head?.bind LogLevel.ofText?).getD level)
              command)
      ∧ (∀ k value, bundle.get? k = some value ↔
          IsProperty environment (valuesInForce .property front inner) k value)
      ∧ ∀ text pairs, command = .interpolate text pairs → ∃ context : Bindings,
          (∀ level, runCommand engine environment bundle level command =
            .success (Reference.expand ⟨context, bundle⟩ text ++ ['\n']) level)
          ∧ ∀ k t, Reference.Scope.lookup? ⟨context, bundle⟩ k = some t ↔
              ∃ value : Json, value.text = t ∧ (IsVariable (valuesOf .var inner) k value
                ∨ (∀ raw ∈ valuesOf .var inner, ∀ t, ¬Assigns k raw t)
                  ∧ IsProperty environment (valuesInForce .property front inner) k value) := by
  -- what the words ask for does not depend on how they are spelled
  have hread := Invocation.ofArguments?_values hfront hinner hproperties hassignments
    hlevels honce hask
  -- the values in force stand on one side of the command, so they can be read like all others
  have haccepted : ∀ raw ∈ valuesInForce .property front inner, (pair? raw).isSome = true := by
    intro raw hraw
    refine hproperties raw ?_
    rw [valuesOf_append]
    exact List.mem_append.mpr (mem_of_mem_valuesInForce hraw)
  refine ⟨propertiesOf environment ((valuesInForce .property front inner).filterMap pair?),
    fun message hlevel => ?_, fun level hlevel => ?_, fun k value => get?_propertiesOf haccepted,
    fun text pairs hcommand => ⟨variablesOf ((valuesOf .var inner).filterMap pair?), ?_, fun k t =>
      lookup?_layered haccepted hassignments⟩⟩
  · simp only [run, hread, hlevel]
  · simp only [run, hread, hlevel]
  · subst hcommand
    generalize plains inner = arguments at hask
    cases hask
    exact fun level => rfl

/-- Names that meet when the blanks are gone, a value with an equals sign, a property in front of
the command that others behind it replace, and a variable that hides a property. -/
theorem run_layered_interpolate :
    ∃ bundle context : Bindings,
      run .unlimited ["--property=user=me".toList, "interpolate".toList, "--property=host=a".toList,
      "--var".toList,
          "n=1".toList, "$\x7bhost\x7d $\x7bn\x7d".toList, "--property".toList, " host =b=c".toList,
          "--var=n =[1, 2]".toList]
        [("STEPMATCH_PROP_host".toList, "here".toList),
        ("STEPMATCH_PROP_user".toList, "root".toList),
          ("STEPMATCH_PROP_n".toList, "7".toList)] =
        .success (Reference.expand ⟨context, bundle⟩ "$\x7bhost\x7d $\x7bn\x7d".toList ++ ['\n'])
          .warn
      ∧ bundle.get? "host".toList = some (.string "b=c".toList)
      ∧ bundle.get? "user".toList = some (.string "root".toList)
      ∧ bundle.get? "n".toList = some (.string "7".toList)
      ∧ Reference.Scope.lookup? ⟨context, bundle⟩ "n".toList = some "[1,2]".toList := by
  let properties : List Text := ["host=a".toList, " host =b=c".toList]
  let front : List Word := [.option .property "user=me".toList true]
  let inner : List Word := [.option .property "host=a".toList true, .option .var "n=1".toList false,
    .plain "$\x7bhost\x7d $\x7bn\x7d".toList, .option .property " host =b=c".toList false,
    .option .var "n =[1, 2]".toList true]
  let pairs : List Pair := [("n".toList, "1".toList), ("n".toList, "[1, 2]".toList)]
  let environment : Environment := [("STEPMATCH_PROP_host".toList, "here".toList),
    ("STEPMATCH_PROP_user".toList, "root".toList), ("STEPMATCH_PROP_n".toList, "7".toList)]
  obtain ⟨bundle, -, hrun, hbundle, hscope⟩ :=
    @run_layered .unlimited environment front inner .interpolate
    (.interpolate "$\x7bhost\x7d $\x7bn\x7d".toList pairs) (by decide) (by decide)
      (by decide) (by decide)
    (by decide) (by decide) (.interpolate _ _)
  obtain ⟨context, hcontext, hlookup⟩ := hscope _ _ rfl
  have hhost : IsLast (Assigns "host".toList) properties "b=c".toList :=
    ⟨["host=a".toList], " host =b=c".toList, [], rfl,
    ⟨" host ".toList, rfl, by decide, by decide⟩, by simp⟩
  have hother : ∀ k ≠ "host".toList, ∀ raw ∈ properties, ∀ t, ¬Assigns k raw t := by
    intro k hk raw hraw t hassigns
    rcases List.mem_pair.mp hraw with rfl | rfl
    · exact hk ((@assigns_append_iff k t "host".toList "a".toList (by decide)).mp hassigns).1.symm
    · exact hk ((@assigns_append_iff k t " host ".toList "b=c".toList (by decide)).mp
        hassigns).1.symm
  have huser : IsLast (SetsProperty "user".toList) environment "root".toList := by
    refine ⟨[environment[0]], _, [environment[2]], rfl, rfl, fun other hlater t hsets => ?_⟩
    rw [List.mem_singleton.mp hlater] at hsets
    have hname : "STEPMATCH_PROP_n".toList = Environment.propertyStart ++ "user".toList :=
      congrArg Prod.fst hsets
    exact absurd hname (by decide)
  have hn : IsLast (Assigns "n".toList) (valuesOf .var inner) "[1, 2]".toList :=
    ⟨["n=1".toList], "n =[1, 2]".toList, [], rfl, ⟨"n ".toList, rfl, by decide, by decide⟩, by simp⟩
  refine ⟨bundle, context, ?_, (hbundle _ _).mpr ⟨_, rfl, .inl hhost⟩, ?_, ?_, ?_⟩
  · have hlevel : LogLevel.ofEnvironment? environment = .ok .default := by decide +kernel
    exact (hrun _ hlevel).trans (hcontext _)
  · exact (hbundle _ _).mpr ⟨_, rfl, .inr ⟨hother _ (by decide), by decide, huser⟩⟩
  · refine (hbundle _ _).mpr ⟨_, rfl, .inr ⟨hother _ (by decide), by decide, ?_⟩⟩
    exact ⟨environment.take 2, environment[2], [], rfl, rfl, by simp⟩
  · exact (hlookup _ _).mpr ⟨.array [.ofNat 1, .ofNat 2], rfl, .inl ⟨_, hn, .inl rfl⟩⟩

end CommandLine

end StepPhrase
