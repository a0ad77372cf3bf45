import StepPhrase.Bindings
import StepPhrase.Reference.Chunk

/-!
# Expansion

References are replaced by the values of their names: the variables of the call first, then the
properties. Values may hold references themselves. A name that is being replaced already is left as
written, so expansion ends: with each level of nesting there is one name less to replace. A name
without a value is left as written too.
-/

namespace StepPhrase.Reference

/-- Where names are looked up. Both parts stay the same while a text is expanded, however deeply its
values are nested. -/
structure Scope where
  /-- The variables of the call. -/
  context : Bindings
  /-- The properties, for names that are no variables. -/
  properties : Bindings

namespace Scope

/-- The text that a reference to a name stands for. A variable hides the property of the same name,
even one whose value is null. -/
def lookup? (scope : Scope) (name : Text) : Option Text :=
  ((scope.context.get? name).or (scope.properties.get? name)).map Json.text

/-- The names that have a value, each once. -/
def names (scope : Scope) : List Text :=
  (scope.context.names ++ scope.properties.names).eraseDups

end Scope

/-- A text with its references replaced, as far as their names are available. The value of a name is
expanded with that name no longer available, and the name is available again behind it. -/
def expandWith (scope : Scope) (available : List Text) (protects : Bool) (t : Text) : Text :=
  (chunks protects false t).flatMap fun
    | .char c => [c]
    | .reference name =>
      match scope.lookup? name with
      | none => written name
      | some value =>
        if _h : name ∈ available then expandWith scope (available.erase name) false value
        else written name
termination_by available.length
decreasing_by
  have := List.length_erase_of_mem _h
  have := List.length_pos_of_mem _h
  omega

/-- A text with its angle parameters and references replaced. Only the text itself can protect a
reference by a quote, the values cannot. -/
def expand (scope : Scope) (t : Text) : Text :=
  expandWith scope scope.names true (dollarForm t)

end StepPhrase.Reference
