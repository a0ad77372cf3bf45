import StepPhrase.CommandLine.LogLevel

/-!
# Invocations

The arguments of the program are read from left to right. An option stands before or after the name
of the command; its value follows it or an equals sign. Behind a double hyphen everything is a plain
argument.

A value that follows its option is looked at only when the next option or plain argument comes, or
the arguments of the level end. So where several arguments are wrong, what is behind a command
counts before the value right in front of it.
-/

namespace StepPhrase.CommandLine

/-- A name bound to a text. -/
abbrev Pair := Text × Text

/-- What the program is to do. -/
inductive Command where
  | matchCall (definition call : Text)
  | format (definition : Text) (values : List Text)
  | interpolate (text : Text) (assignments : List Pair)
  | keywords
  deriving DecidableEq, Repr

/-- What the program is asked for: a command and the options that hold for every command.
Assignments belong to the one command that has them. -/
structure Invocation where
  logLevel : Option LogLevel
  properties : List Pair
  command : Command
  deriving DecidableEq, Repr

/-- Why arguments are not understood, or ask for nothing but advice. -/
inductive UsageError where
  /-- An option has a value that it cannot have. -/
  | invalidValue (message : Text)
  /-- An option has no value. -/
  | missingValue
  /-- An option that takes no value has one. -/
  | unneededValue
  /-- An option that may be given once is given again. -/
  | repeatedOption
  | unknownArgument
  | unknownCommand
  /-- The command lacks an argument. -/
  | missingArgument
  /-- There are options but no command. -/
  | missingCommand
  /-- There is nothing at all. -/
  | nothing
  | help
  | version
  deriving DecidableEq, Repr

/-! ### Options -/

/-- The options that have a value. -/
inductive OptionName where
  | logLevel
  | property
  | var
  deriving DecidableEq, Repr

/-- The names of the commands. -/
inductive CommandName where
  | matchCall
  | format
  | interpolate
  | keywords
  deriving DecidableEq, Repr

/-- The option of a name, at the top or in a command. Two options may stand in either place;
assignments may stand only in the command that has a use for them. -/
def optionNamed? (command : Option CommandName) (name : Text) : Option OptionName :=
  if name = "log-level".toList then some .logLevel
  else if name = "property".toList then some .property
  else if name = "var".toList ∧ command = some .interpolate then some .var
  else none

/-- The command of a name. -/
def commandNamed? (name : Text) : Option CommandName :=
  if name = "match".toList then some .matchCall
  else if name = "format".toList then some .format
  else if name = "interpolate".toList then some .interpolate
  else if name = "keywords".toList then some .keywords
  else none

/-- The word that asks for advice in the place of a command. -/
def helpWord : Text := "help".toList

/-- The number of plain arguments that a command takes. Only a definition that is written out takes
any number, one value for each slot. -/
def CommandName.takes (command : CommandName) (n : Nat) : Bool :=
  match command with
  | .matchCall => n ≤ 2
  | .format => true
  | .interpolate => n ≤ 1
  | .keywords => n ≤ 0

/-- The name and the value in `name=value`. The name must not be blank, and the blanks around it do
not belong to it; the value is everything behind the first equals sign. -/
def pair? (t : Text) : Option Pair :=
  match t.cut? '=' with
  | some (name, value) => if name.trim = [] then none else some (name.trim, value)
  | none => none

/-- The complaint about a text that is no pair. -/
def noPair (t : Text) : Text := "expected KEY=VALUE, got '".toList ++ t ++ "'".toList

/-- The values of the options so far at one level, in the order in which they were given. -/
structure Options where
  logLevel : Option LogLevel
  properties : List Pair
  assignments : List Pair

namespace Options

/-- No options. -/
def empty : Options := ⟨none, [], []⟩

/-- Whether no option is given. -/
def isEmpty (o : Options) : Bool :=
  o.logLevel.isNone && o.properties.isEmpty && o.assignments.isEmpty

/-- One more option with its value, if it may have that. The level of logging may be given once at
each level; the others may be given any number of times. -/
def set (o : Options) (name : OptionName) (value : Text) : Except UsageError Options :=
  match name with
  | .logLevel =>
    if o.logLevel.isSome then .error .repeatedOption
    else
      match LogLevel.ofText? value with
      | some level => .ok { o with logLevel := some level }
      | none => .error (.invalidValue (LogLevel.unknown value))
  | .property =>
    match pair? value with
    | some pair => .ok { o with properties := o.properties ++ [pair] }
    | none => .error (.invalidValue (noPair value))
  | .var =>
    match pair? value with
    | some pair => .ok { o with assignments := o.assignments ++ [pair] }
    | none => .error (.invalidValue (noPair value))

/-- The options of the top with those of the command over them. What a command has of an option that
may stand in either place replaces all that the top has of it, however often that was given. -/
def overlay (top own : Options) : Options :=
  ⟨own.logLevel.or top.logLevel,
    if own.properties.isEmpty then top.properties else own.properties,
    own.assignments⟩

end Options

/-! ### Arguments -/

/-- What has been read at one level, which is the top or a command. -/
structure Progress where
  options : Options
  /-- An option whose value has not been looked at, or not come yet. -/
  pending : Option (OptionName × Option Text)
  /-- The plain arguments, last first. -/
  plain : List Text
  /-- Whether a double hyphen has come. -/
  onlyPlain : Bool

namespace Progress

/-- Nothing read. -/
def start : Progress := ⟨.empty, none, [], false⟩

/-- Looks at the value of the option that is pending. This comes only with the next option or plain
argument, so errors further on may be reported first. -/
def settle (p : Progress) : Except UsageError Progress :=
  match p.pending with
  | none => .ok p
  | some (_, none) => .error .missingValue
  | some (name, some value) =>
    (p.options.set name value).map fun options => { p with options, pending := none }

/-- Whether the value of an option has to come next. -/
def awaitsValue (p : Progress) : Bool :=
  match p.pending with
  | some (_, none) => true
  | _ => false

/-- The value of the option that awaits one. -/
def giveValue (p : Progress) (value : Text) : Progress :=
  { p with pending := p.pending.map fun (name, _) => (name, some value) }

/-- An option, with its value if there is an equals sign. The option before it is settled first; a
value behind an equals sign is looked at at once. -/
def beginOption (p : Progress) (name : OptionName) (value : Option Text) :
    Except UsageError Progress := do
  let p ← p.settle
  match value with
  | none => .ok { p with pending := some (name, none) }
  | some value => .ok { p with options := (← p.options.set name value) }

end Progress

/-- What an argument is by its hyphens. -/
inductive Form where
  | plain
  | doubleHyphen
  /-- The name of an option, and the value behind an equals sign. -/
  | long (name : Text) (value : Option Text)
  /-- A cluster of one-letter options. -/
  | short (first : Char)
  deriving DecidableEq, Repr

/-- The form of an argument. One hyphen alone is a plain argument, and of a cluster of letters only
the first is looked at, since every letter that is known ends the reading. -/
def Form.ofText : Text → Form
  | ['-', '-'] => .doubleHyphen
  | '-' :: '-' :: t =>
    match Text.cut? '=' t with
    | some (name, value) => .long name (some value)
    | none => .long t none
  | '-' :: c :: _ => .short c
  | _ => .plain

/-- The end at an option that asks for advice and takes no value. -/
def advice (p : Progress) (value : Option Text) (e : UsageError) : Except UsageError Progress :=
  match value with
  | some _ => .error .unneededValue
  | none => p.settle.bind fun _ => .error e

/-- Takes an argument of a form that only options have. Advice can be asked for anywhere, the
version only at the top. -/
def takeOption (command : Option CommandName) (p : Progress) : Form → Except UsageError Progress
  | .long name value =>
    match optionNamed? command name with
    | some option => p.beginOption option value
    | none =>
      if name = "help".toList then advice p value .help
      else if name = "version".toList ∧ command = none then advice p value .version
      else .error .unknownArgument
  | .short c =>
    if c = 'h' then advice p none .help
    else if c = 'V' ∧ command = none then advice p none .version
    else .error .unknownArgument
  | .plain | .doubleHyphen => .ok p

/-- Takes a plain argument of a command, unless the command has as many as it takes. That is found
out before the pending option is settled. -/
def takePlain (command : CommandName) (p : Progress) (argument : Text) :
    Except UsageError Progress :=
  if command.takes (p.plain.length + 1) then
    p.settle.map fun p => { p with plain := argument :: p.plain }
  else .error .unknownArgument

/-- Takes an argument of a command. A plain argument behind an option that awaits its value is that
value; behind a double hyphen every argument is plain. -/
def takeArgument (command : CommandName) (p : Progress) (argument : Text) :
    Except UsageError Progress :=
  if p.onlyPlain then takePlain command p argument
  else
    match Form.ofText argument with
    | .doubleHyphen => .ok { p with onlyPlain := true }
    | .plain =>
      if p.awaitsValue then .ok (p.giveValue argument) else takePlain command p argument
    | form => takeOption (some command) p form

/-- What the arguments of a command ask for, with the options among them. -/
def ofCommand (command : CommandName) (arguments : List Text) :
    Except UsageError (Options × Command) := do
  let p ← arguments.foldlM (takeArgument command) .start
  let p ← p.settle
  match command, p.plain.reverse with
  | .matchCall, [definition, call] => .ok (p.options, .matchCall definition call)
  | .format, definition :: values => .ok (p.options, .format definition values)
  | .interpolate, [text] => .ok (p.options, .interpolate text p.options.assignments)
  | .keywords, [] => .ok (p.options, .keywords)
  | _, _ => .error .missingArgument

/-- The end of the arguments without a command. -/
def withoutCommand (p : Progress) : Except UsageError Invocation := do
  let p ← p.settle
  if p.options.isEmpty then .error .nothing else .error .missingCommand

/-- Advice in general or on the command that is named. No command has commands of its own, so a
second name is unknown whatever it is. -/
def advise (names : List Text) : UsageError :=
  match names with
  | [] => .help
  | [name] =>
    if name = helpWord ∨ (commandNamed? name).isSome then .help else .unknownCommand
  | _ :: _ :: _ => .unknownCommand

/-- Reads on at the top. -/
def Invocation.readFrom (p : Progress) : List Text → Except UsageError Invocation
  | [] => withoutCommand p
  | argument :: rest =>
    let isCommand := argument = helpWord ∨ (commandNamed? argument).isSome
    if p.onlyPlain then .error (if isCommand then .unknownArgument else .unknownCommand)
    else
      match Form.ofText argument with
      | .doubleHyphen => readFrom { p with onlyPlain := true } rest
      | .plain =>
        if p.awaitsValue then readFrom (p.giveValue argument) rest
        else if argument = helpWord then .error (advise rest)
        else
          match commandNamed? argument with
          | none => .error .unknownCommand
          | some command =>
            match ofCommand command rest with
            | .error e => .error e
            | .ok (options, command) =>
              p.settle.map fun p =>
                let all := p.options.overlay options
                ⟨all.logLevel, all.properties, command⟩
      | form =>
        match takeOption none p form with
        | .ok p => readFrom p rest
        | .error e => .error e

/-- What the arguments of the program ask for. -/
def Invocation.ofArguments? (arguments : List Text) : Except UsageError Invocation :=
  readFrom .start arguments

end StepPhrase.CommandLine
