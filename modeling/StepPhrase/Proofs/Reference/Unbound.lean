import StepPhrase.Proofs.Reference.Nesting
import StepPhrase.Proofs.Reference.Openings

/-!
# Names without a value

A reference to a name without a value stays as it is written. Where that is all there is to replace,
a text only has its angle parameters written as references. A name that is met behind a quote alone
may well have a value.

An escape is the one thing that expansion changes without replacing a reference, so it is excluded.
Openings that a quote protects or that nothing closes come out as they went in.

* **`Level.expansion_of_unbound`** — a level in which no name has a value is left as it is.
* **`expand_of_unbound`** — so is a text as a whole.
-/

namespace StepPhrase.Reference

variable {scope : Scope} {level : Level} {t name : Text}

theorem Scope.lookup?_eq_none_iff :
    scope.lookup? name = none ↔ scope.context.get? name = none
    ∧ scope.properties.get? name = none := by
  rw [lookup?, Option.map_eq_none_iff, Option.or_eq_none_iff]

namespace Level

theorem replacement_eq_source {chunk : Chunk}
    (h : ∀ name, chunk = .reference name → scope.lookup? name = none) :
    level.replacement scope chunk = chunk.source := by
  cases chunk with
  | char c => rfl
  | reference name => exact replacement_unbound (h name rfl)

/-- **A level in which no name has a value is left as it is**, the openings that are no references
included. -/
theorem expansion_of_unbound (hescape : IsEscapeFree level.text)
    (hunbound : ∀ name, .reference name ∈ level.chunks → scope.lookup? name = none) :
    level.expansion scope = level.text := by
  have hsource : ∀ chunk ∈ level.chunks, level.replacement scope chunk = chunk.source := by
    intro chunk hchunk
    refine replacement_eq_source fun name heq => hunbound name ?_
    rwa [← heq]
  rw [expansion, List.flatMap_congr hsource]
  exact flatMap_source_chunks hescape

theorem expansion_of_dollar_not_mem (hdollar : '$' ∉ level.text) :
    level.expansion scope = level.text := by
  rw [expansion, chunks, chunks_of_dollar_not_mem hdollar, flatMap_map_char]

end Level

/-- **References to names without a value survive as they are written.** If no name that a text
refers to has a value, neither as a variable nor as a property, only its angle parameters are
written in another way. -/
theorem expand_of_unbound (hescape : IsEscapeFree (dollarForm t))
    (hunbound : ∀ name, .reference name ∈ chunks true false (dollarForm t) →
      scope.context.get? name = none ∧ scope.properties.get? name = none) :
    expand scope t = dollarForm t := by
  have hvalueless : ∀ name, .reference name ∈ (outermost t).chunks → scope.lookup? name = none :=
    fun name hmem => Scope.lookup?_eq_none_iff.mpr (hunbound name hmem)
  rw [expand_eq, Level.expansion_of_unbound hescape hvalueless]
  rfl

/-- A dollar alone, an angle parameter, a name with a value behind a quote, a name with a brace in
it, and a reference that is never closed. -/
theorem expand_of_unbound_gone :
    ∃ (scope : Scope) (t : Text), t = "$ <a>$\"${x}\" $\x7b\x7bn\x7d\x7d$\x7bgone".toList
      ∧ scope.context.get? ['x'] = some (.string ['1'])
      ∧ IsEscapeFree (dollarForm t)
      ∧ (∀ name, .reference name ∈ chunks true false (dollarForm t) →
          scope.context.get? name = none ∧ scope.properties.get? name = none)
      ∧ expand scope t = "$ ${a}$\"${x}\" $\x7b\x7bn\x7d\x7d$\x7bgone".toList := by
  let scope : Scope := ⟨⟨[(['x'], .string ['1'])]⟩, ⟨[(['p'], .string ['2'])]⟩⟩
  let t : Text := "$ <a>$\"${x}\" $\x7b\x7bn\x7d\x7d$\x7bgone".toList
  have hform : dollarForm t = "$ ${a}$\"${x}\" $\x7b\x7bn\x7d\x7d$\x7bgone".toList := by
    decide +kernel
  have hescape : IsEscapeFree (dollarForm t) :=
    (by decide +kernel : ¬ ['$', '$', '{'] <:+: dollarForm t)
  have hunbound : ∀ name, .reference name ∈ chunks true false (dollarForm t) →
      scope.context.get? name = none ∧ scope.properties.get? name = none := by
    have hchunks : chunks true false (dollarForm t) =
        "$ ".toList.map .char ++ .reference ['a'] :: ("$\"${x}\" ".toList.map .char
          ++ .reference "\x7bn".toList :: "\x7d$\x7bgone".toList.map .char) := by
      decide +kernel
    intro name hmem
    rw [hchunks] at hmem
    have hname : name = ['a'] ∨ name = "\x7bn".toList := by simpa using hmem
    rcases hname with rfl | rfl <;> decide
  exact ⟨scope, t, rfl, rfl, hescape, hunbound, (expand_of_unbound hescape hunbound).trans hform⟩

end StepPhrase.Reference
