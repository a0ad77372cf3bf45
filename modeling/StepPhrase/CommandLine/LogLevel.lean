import StepPhrase.Environment
import StepPhrase.Unicode.LowerCase

/-!
# Log levels

How much is logged is set by an environment variable or an option.
-/

namespace StepPhrase.CommandLine

/-- How much is logged. -/
inductive LogLevel where
  | trace
  | debug
  | info
  | warn
  | error
  deriving DecidableEq, Repr

namespace LogLevel

/-- The level that holds when none is set. -/
def default : LogLevel := .warn

/-- Every level with the words for it. -/
def words : List (Text × LogLevel) :=
  [("trace".toList, .trace), ("debug".toList, .debug), ("info".toList, .info),
    ("warn".toList, .warn), ("warning".toList, .warn), ("error".toList, .error)]

/-- The level as written. -/
def name : LogLevel → Text
  | .trace => "trace".toList
  | .debug => "debug".toList
  | .info => "info".toList
  | .warn => "warn".toList
  | .error => "error".toList

/-- The level that a word stands for, whatever its case. Blanks around the word are not taken off.
-/
def ofText? (t : Text) : Option LogLevel := words.lookup (t.flatMap Unicode.lowerCase)

/-- The complaint about a word that stands for no level. -/
def unknown (t : Text) : Text :=
  "invalid configuration: unknown log level '".toList ++ t
    ++ "', expected one of: trace, debug, info, warn, error".toList

/-- The environment variable that sets the level. -/
def variableName : Text := "STEPMATCH_LOG_LEVEL".toList

/-- The level that the environment sets, or a complaint. It is looked at even where an option sets
the level, so a variable that stands for none is always reported. -/
def ofEnvironment? (environment : Environment) : Except Text LogLevel :=
  match environment.lookup variableName with
  | none => .ok default
  | some t =>
    match ofText? t with
    | some level => .ok level
    | none => .error (unknown t)

end LogLevel

end StepPhrase.CommandLine
