import StepPhrase.Call.Match
import StepPhrase.CommandLine.Invocation
import StepPhrase.Environment
import StepPhrase.Json.Reader
import StepPhrase.Reference.Expansion
import StepPhrase.Template.Filled

/-!
# Runs

A run of the program takes its arguments and the environment to an outcome. Properties come from the
environment and, before those, from the options; variables that read as JSON are JSON.
-/

namespace StepPhrase.CommandLine

/-- What a run comes to. -/
inductive Outcome where
  /-- The command has done its work and written this. -/
  | success (output : Text) (level : LogLevel)
  /-- The call does not match. -/
  | noMatch (level : LogLevel)
  /-- The arguments are not understood. -/
  | usage (e : UsageError)
  /-- The environment cannot be used. -/
  | invalidConfiguration (message : Text)
  /-- The command cannot be carried out. -/
  | failed (message : Text)
  deriving DecidableEq, Repr

/-- The properties of a run: those of the environment, and over them those of the options. What an
option sets is a text too, whatever it looks like. -/
def propertiesOf (environment : Environment) (options : List Pair) : Bindings :=
  environment.properties.setAll (options.map fun (name, value) => (name, .string value))

/-- The value of a variable that is given as a text: the JSON value that the whole of it denotes, or
else the text itself as a string. -/
def variableValue (t : Text) : Json := (Json.read? t).getD (.string t)

/-- The variables of a run. -/
def variablesOf (assignments : List Pair) : Bindings :=
  .ofList (assignments.map fun (name, value) => (name, variableValue value))

/-- An argument as JSON. -/
def argumentJson (a : Argument) : Text :=
  "\x7b\"value\":".toList ++ Json.writeString a.value ++ ",\"type\":".toList
    ++ Json.writeString a.shape.tag ++ "\x7d".toList

/-- Arguments as a line of JSON. -/
def argumentsLine (arguments : List Argument) : Text :=
  '[' :: (Text.join [','] (arguments.map argumentJson) ++ "]\n".toList)

/-- Matches a call. The definition is read before the limit is, so of two faults the one in the
definition is reported. -/
def runMatch (engine : Engine) (environment : Environment) (properties : Bindings)
    (level : LogLevel) (definition call : Text) : Outcome :=
  match Template.ofText? engine definition with
  | .error e =>
    .failed ("invalid step definition '".toList ++ definition ++ "': ".toList ++ e.message)
  | .ok template =>
    match SizeLimit.ofEnvironment? environment with
    | .error e => .failed ("invalid match limits: ".toList ++ e.message)
    | .ok limit =>
      match Call.match? ⟨engine, properties, limit⟩ template call with
      | some arguments => .success (argumentsLine arguments) level
      | none => .noMatch level

/-- Carries out a command. -/
def runCommand (engine : Engine) (environment : Environment) (properties : Bindings)
    (level : LogLevel) : Command → Outcome
  | .matchCall definition call => runMatch engine environment properties level definition call
  | .format definition values => .success (Template.fill definition values ++ ['\n']) level
  | .interpolate text assignments =>
    .success (Reference.expand ⟨variablesOf assignments, properties⟩ text ++ ['\n']) level
  | .keywords => .success (properties.keywords.flatMap (· ++ ['\n'])) level

/-- What a run with these arguments comes to. The arguments are read first, then the level of
logging; only then is the command carried out. -/
def run (engine : Engine) (arguments : List Text) (environment : Environment) : Outcome :=
  match Invocation.ofArguments? arguments with
  | .error e => .usage e
  | .ok invocation =>
    match LogLevel.ofEnvironment? environment with
    | .error message => .invalidConfiguration message
    | .ok level =>
      runCommand engine environment (propertiesOf environment invocation.properties)
        (invocation.logLevel.getD level) invocation.command

end StepPhrase.CommandLine
