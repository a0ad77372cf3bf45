import StepPhrase.Proofs.Reference.Nesting

/-!
# What an expansion depends on

An expansion looks up the names that the text refers to, the names that their values refer to, and
so on. Two scopes in which these names have the same values are the same to it, whatever other names
they have. Cycles make no exception: a name in use is left as written in both scopes, and its value
is not looked at again.

Which names are reached depends on values too, so it is asked in one of the two scopes. The other
reaches the same names, since it has the same values for all of them.

* **`Reaches`** — the names that are reached from some chunks.
* **`Level.replacement_congr`**, **`Level.expansion_congr`** — one reference, and a level as a
  whole.
* **`expand_congr`** — a text. A property is never seen behind a variable of the same name.
-/

namespace StepPhrase.Reference

variable {scope other : Scope} {cs : List Chunk} {name further value : Text}

/-- The names that some chunks refer to, directly or by way of the values of such names. Names
without a value are reached too, since it matters that they have none. -/
inductive Reaches (scope : Scope) (cs : List Chunk) : Text → Prop
  | here {name : Text} (hmem : .reference name ∈ cs) : Reaches scope cs name
  | behind {name value further : Text} (hname : Reaches scope cs name)
      (hvalue : scope.lookup? name = some value)
      (hmem : .reference further ∈ chunks false false value) :
      Reaches scope cs further

theorem Reaches.of_value (h : Reaches scope (chunks false false value) further)
    (hmem : .reference name ∈ cs) (hvalue : scope.lookup? name = some value) :
    Reaches scope cs further := by
  induction h with
  | here hinside => exact .behind (.here hmem) hvalue hinside
  -- the names between lie in the value, so each of them is reached from the chunks already
  | behind _ hvalue' hinside ih => exact .behind ih hvalue' hinside

/-- Two scopes have the same values for all names that are reached from some chunks. What they say
about other names, and whether a value is a variable or a property, is left open. -/
def Agree (scope other : Scope) (cs : List Chunk) : Prop :=
  ∀ name, Reaches scope cs name → scope.lookup? name = other.lookup? name

theorem Agree.inside (h : Agree scope other cs) (hmem : .reference name ∈ cs)
    (hvalue : scope.lookup? name = some value) : Agree scope other (chunks false false value) :=
  fun _ hreached => h _ (hreached.of_value hmem hvalue)

namespace Level

variable {level : Level}

/-- A reference is replaced by the same text in both scopes, given that values inside expand to the
same. -/
theorem replacement_congr (h : Agree scope other level.chunks) {chunk : Chunk}
    (hchunk : chunk ∈ level.chunks)
    (hinside : ∀ name value, .reference name ∈ level.chunks → scope.lookup? name = some value →
      name ∉ level.inUse → (level.inside name value).expansion scope =
        (level.inside name value).expansion other) :
    level.replacement scope chunk = level.replacement other chunk := by
  cases chunk with
  | char c => rfl
  | reference name =>
    -- the name is reached, so it has the same value in both, or none
    have hsame := h name (.here hchunk)
    cases hvalue : scope.lookup? name with
    | none => rw [replacement_unbound hvalue, replacement_unbound (hsame ▸ hvalue)]
    | some value =>
      -- a name in use is left as it stands, whatever its value
      by_cases hused : name ∈ level.inUse
      · rw [replacement_inUse hused, replacement_inUse hused]
      · rw [replacement_inside hvalue hused, replacement_inside (hsame ▸ hvalue) hused]
        exact hinside name value hchunk hvalue hused

/-- **A level depends on the names that it reaches**, by induction on the names that are left to
replace in it. -/
theorem expansion_congr (h : Agree scope other level.chunks) :
    level.expansion scope = level.expansion other := by
  induction hn : (level.available scope).length using Nat.strongRecOn generalizing level with
  | ind n ih =>
    refine List.flatMap_congr fun chunk hchunk => replacement_congr h hchunk ?_
    intro name value hmem hvalue hfree
    exact ih _ (hn ▸ length_available_inside_lt hvalue hfree) (h.inside hmem hvalue) rfl

end Level

theorem Scope.lookup?_of_bound {context properties changed : Bindings}
    (hname : (context.get? name).isSome)
    (hchanged : ∀ further, further ≠ name → changed.get? further = properties.get? further) :
    Scope.lookup? ⟨context, properties⟩ further = Scope.lookup? ⟨context, changed⟩ further := by
  by_cases hfurther : further = name
  · obtain ⟨value, hvalue⟩ := Option.isSome_iff_exists.mp hname
    simp only [Scope.lookup?, hfurther, hvalue, Option.some_or]
  · simp only [Scope.lookup?, hchanged further hfurther]

/-- **Expansion depends on the names that the text reaches and on no others.** So a property can be
changed at will if a variable has its name. -/
theorem expand_congr (t : Text) :
    (∀ scope other : Scope,
        (∀ name, Reaches scope (outermost t).chunks name →
          scope.lookup? name = other.lookup? name) →
        expand scope t = expand other t)
      ∧ ∀ (context properties changed : Bindings) (name : Text), (context.get? name).isSome →
          (∀ further, further ≠ name → changed.get? further = properties.get? further) →
          expand ⟨context, properties⟩ t = expand ⟨context, changed⟩ t := by
  -- the names that a text reaches are those that its outermost level reaches
  have hall : ∀ scope other : Scope, Agree scope other (outermost t).chunks →
      expand scope t = expand other t := by
    intro scope other h
    rw [expand_eq, expand_eq, Level.expansion_congr h]
  refine ⟨hall, fun context properties changed name hname hchanged => hall _ _ ?_⟩
  intro further _
  exact Scope.lookup?_of_bound hname hchanged

/-- A variable hides a property, and a quote keeps another name from being reached. -/
theorem expand_congr_page :
    ∃ scope other, scope.lookup? "key".toList = some "1".toList
      ∧ other.lookup? "key".toList = some "2".toList
      ∧ (∀ name, Reaches scope (outermost "<page> \"${key}\"".toList).chunks name →
          scope.lookup? name = other.lookup? name)
      ∧ expand scope "<page> \"${key}\"".toList = "h/5 \"${key}\"".toList
      ∧ expand other "<page> \"${key}\"".toList = "h/5 \"${key}\"".toList
      ∧ expand ⟨scope.context, scope.properties.erase "page".toList⟩ "<page> \"${key}\"".toList =
        "h/5 \"${key}\"".toList := by
  let context : Bindings := ⟨[("page".toList, .string "${base}/5".toList)]⟩
  let scope : Scope :=
    ⟨context, ⟨[("page".toList, .string "start".toList), ("base".toList, .string "h".toList),
    ("key".toList, .string "1".toList)]⟩⟩
  let other : Scope :=
    ⟨context, ⟨[("base".toList, .string "h".toList), ("key".toList, .string "2".toList)]⟩⟩
  -- the quote keeps `key` from being read as a reference, so only two names are reached
  have hreached : ∀ name, Reaches scope (outermost "<page> \"${key}\"".toList).chunks name →
      name = "page".toList ∨ name = "base".toList := by
    intro name h
    induction h with
    | here hmem =>
      have hchunks : (outermost "<page> \"${key}\"".toList).chunks =
          .reference "page".toList :: " \"${key}\"".toList.map .char := by
        decide +kernel
      rw [hchunks] at hmem
      exact .inl (by simpa using hmem)
    | behind _ hvalue hmem ih =>
      rcases ih with rfl | rfl
      · have hpage : scope.lookup? "page".toList = some "${base}/5".toList := by decide +kernel
        obtain rfl := Option.some.inj (hpage.symm.trans hvalue)
        have hchunks : chunks false false "${base}/5".toList =
            [.reference "base".toList, .char '/', .char '5'] := by
          decide +kernel
        rw [hchunks] at hmem
        exact .inr (by simpa using hmem)
      · have hbase : scope.lookup? "base".toList = some "h".toList := by decide +kernel
        obtain rfl := Option.some.inj (hbase.symm.trans hvalue)
        have hchunks : chunks false false "h".toList = [.char 'h'] := by decide +kernel
        rw [hchunks] at hmem
        simp at hmem
  -- the scopes have the same values for these two and not for `key`
  have hagree : ∀ name, Reaches scope (outermost "<page> \"${key}\"".toList).chunks name →
      scope.lookup? name = other.lookup? name := by
    intro name h
    rcases hreached name h with rfl | rfl <;> decide +kernel
  have hout : expand scope "<page> \"${key}\"".toList = "h/5 \"${key}\"".toList := by decide +kernel
  obtain ⟨hscopes, hproperties⟩ := expand_congr "<page> \"${key}\"".toList
  refine ⟨scope, other, by decide +kernel, by decide +kernel, hagree, hout, ?_, ?_⟩
  · rw [← hscopes scope other hagree, hout]
  · rw [← hproperties scope.context scope.properties _ "page".toList (by decide +kernel) ?_]
    · exact hout
    · intro further hfurther
      rw [Bindings.get?_erase, if_neg hfurther]

end StepPhrase.Reference
