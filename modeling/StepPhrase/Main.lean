import StepPhrase.CommandLine.Run
import StepPhrase.Engine.Estimate

/-!
# The program

Reads the arguments and the environment, runs, and reports the outcome: what a command writes goes
to standard output, complaints go to standard error. The exit status is 0 for success, 1 for a call
that does not match and 2 for a failure.
-/

namespace StepPhrase.CommandLine

/-- What to say about arguments that are not understood. -/
def UsageError.message : UsageError → Text
  | .invalidValue message => message
  | .missingValue => "an option lacks its value".toList
  | .unneededValue => "an option has a value that it does not take".toList
  | .repeatedOption => "an option is given more than once".toList
  | .unknownArgument => "unexpected argument".toList
  | .unknownCommand => "unknown command".toList
  | .missingArgument => "the command lacks an argument".toList
  | .missingCommand | .nothing | .help | .version =>
    "commands: match, format, interpolate, keywords".toList

/-- The status with which the program exits. -/
def Outcome.exitStatus : Outcome → UInt32
  | .success _ _ | .usage .help | .usage .version => 0
  | .noMatch _ => 1
  | _ => 2

/-- What goes to standard output. -/
def Outcome.output : Outcome → Text
  | .success output _ => output
  | _ => []

/-- What goes to standard error. -/
def Outcome.complaint : Outcome → Text
  | .success _ _ | .noMatch _ => []
  | .usage e => e.message ++ ['\n']
  | .invalidConfiguration message | .failed message => message ++ ['\n']

/-- The variables in a block of `name=value` entries, each closed by a null byte. -/
def environmentOfBlock (block : Text) : Environment :=
  (Text.splitOn '\x00' block).filterMap (Text.cut? '=')

end StepPhrase.CommandLine

open StepPhrase StepPhrase.CommandLine in
/-- Runs the program on its arguments. -/
def main (arguments : List String) : IO UInt32 := do
  let block ← IO.FS.readFile "/proc/self/environ"
  let outcome := run .estimate (arguments.map String.toList) (environmentOfBlock block.toList)
  IO.print (String.ofList outcome.output)
  IO.eprint (String.ofList outcome.complaint)
  return outcome.exitStatus
