import StepPhrase.Bindings

/-!
# The environment

Variables of the environment set the properties whose names follow a common beginning, and single
settings under names of their own.
-/

namespace StepPhrase

/-- The variables of the environment with their values. -/
abbrev Environment := List (Text × Text)

namespace Environment

/-- What begins the names of the variables that set properties. -/
def propertyStart : Text := "STEPMATCH_PROP_".toList

/-- The property that a variable sets. The name of the property is what follows the common
beginning, which must not be empty; its value is the text of the variable, never read as JSON. -/
def property? (variableName value : Text) : Option (Text × Json) :=
  match propertyStart.isPrefixOf? variableName with
  | some (c :: name) => some (c :: name, .string value)
  | _ => none

/-- The properties that an environment sets. Variables that do not begin as such variables do are
passed over. -/
def properties (environment : Environment) : Bindings :=
  .ofList (environment.filterMap fun (name, value) => property? name value)

end Environment

end StepPhrase
