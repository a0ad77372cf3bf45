import StepPhrase.Json.Lexeme

/-!
# Reading JSON

Values are put together from lexemes. The containers that are still open form a stack, whose height
is the depth of nesting and is bounded.
-/

namespace StepPhrase.Json

/-- The number of containers that may be open at once. -/
def depthBound : Nat := 127

/-- A container that is still open; what it holds so far comes last first. -/
inductive Container where
  | array (items : List Json)
  | object (members : List (Text × Json))
  /-- An object that waits for the value of a member. -/
  | member (members : List (Text × Json)) (name : Text)

/-- What may come next. -/
inductive Expectation where
  | value
  /-- A value, or the end of an array that has no items yet. -/
  | valueOrEnd
  | name
  /-- A name, or the end of an object that has no members yet. -/
  | nameOrEnd
  | colon
  /-- A comma or the end of the innermost container. -/
  | more
  /-- The end of the text, behind this value. -/
  | done (value : Json)

/-- Hands a complete value to the innermost container, or makes it the result where none is open. An
object has to have a name waiting for it. -/
def deliver (value : Json) : List Container → Option (List Container × Expectation)
  | [] => some ([], .done value)
  | .array items :: outer => some (.array (value :: items) :: outer, .more)
  | .member members name :: outer => some (.object ((name, value) :: members) :: outer, .more)
  | .object _ :: _ => none

/-- Opens a container, if there are not too many already. -/
def opened (container : Container) (expectation : Expectation) (stack : List Container) :
    Option (List Container × Expectation) :=
  if stack.length < depthBound then some (container :: stack, expectation) else none

/-- The beginning of a value. -/
def beginValue (lexeme : Lexeme) (stack : List Container) :
    Option (List Container × Expectation) :=
  match lexeme with
  | .string t => deliver (.string t) stack
  | .scalar value => deliver value stack
  | .mark c =>
    if c = '[' then opened (.array []) .valueOrEnd stack
    else if c = '{' then opened (.object []) .nameOrEnd stack
    else none

/-- The name of a member. -/
def beginMember (lexeme : Lexeme) : List Container → Option (List Container × Expectation)
  | .object members :: outer =>
    match lexeme with
    | .string name => some (.member members name :: outer, .colon)
    | _ => none
  | _ => none

/-- The end of the innermost container. -/
def close (c : Char) : List Container → Option (List Container × Expectation)
  | .array items :: outer => if c = ']' then deliver (.array items.reverse) outer else none
  | .object members :: outer =>
    if c = '}' then deliver (ofMembers members.reverse) outer else none
  | _ => none

/-- What may follow a comma. -/
def afterComma : List Container → Option (List Container × Expectation)
  | .array items :: outer => some (.array items :: outer, .value)
  | .object members :: outer => some (.object members :: outer, .name)
  | _ => none

/-- Takes one lexeme: what may come next and the containers that are open decide whether it may
stand here, and what may follow. -/
def accept (stack : List Container) :
    Expectation → Lexeme → Option (List Container × Expectation)
  | .value, lexeme => beginValue lexeme stack
  | .valueOrEnd, .mark ']' => close ']' stack
  | .valueOrEnd, lexeme => beginValue lexeme stack
  | .name, lexeme => beginMember lexeme stack
  | .nameOrEnd, .mark '}' => close '}' stack
  | .nameOrEnd, lexeme => beginMember lexeme stack
  | .colon, .mark ':' => some (stack, .value)
  | .more, .mark c => if c = ',' then afterComma stack else close c stack
  | _, _ => none

/-- The value that the lexemes make up from here on. -/
def assemble (stack : List Container) : Expectation → List Lexeme → Option Json
  | .done value, [] => some value
  | _, [] => none
  | expectation, lexeme :: rest =>
    match accept stack expectation lexeme with
    | some (stack, expectation) => assemble stack expectation rest
    | none => none

/-- The value that the whole of a text denotes. Nothing but blanks may stand in front of it or
behind. -/
def read? (t : Text) : Option Json := (Lexeme.ofText? t).bind (assemble [] .value)

end StepPhrase.Json
