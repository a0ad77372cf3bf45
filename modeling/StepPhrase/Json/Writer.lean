import StepPhrase.Json.Value

/-!
# Writing JSON

Values are written without blanks. In strings only the quote, the backslash and the control
characters are escaped.
-/

namespace StepPhrase.Json

/-- A digit of a number to base sixteen. -/
def hexDigit (n : Nat) : Char := Nat.digitChar n

/-- A character as it stands in a string. -/
def escapeChar (c : Char) : Text :=
  if c = '"' then ['\\', '"']
  else if c = '\\' then ['\\', '\\']
  else if c = '\n' then ['\\', 'n']
  else if c = '\r' then ['\\', 'r']
  else if c = '\t' then ['\\', 't']
  else if c = '\x08' then ['\\', 'b']
  else if c = '\x0c' then ['\\', 'f']
  else if c.toNat < 0x20 then
    ['\\', 'u', '0', '0', hexDigit (c.toNat / 16), hexDigit (c.toNat % 16)]
  else [c]

/-- A string in its quotes. -/
def writeString (t : Text) : Text := '"' :: (t.flatMap escapeChar ++ ['"'])

mutual

/-- The text of a value. -/
def write : Json → Text
  | .null => "null".toList
  | .bool b => if b then "true".toList else "false".toList
  | .number n => n.write
  | .string t => writeString t
  | .array items => '[' :: (Text.join [','] (writeItems items) ++ [']'])
  | .object members => '{' :: (Text.join [','] (writeMembers members) ++ ['}'])

/-- The texts of some values. -/
def writeItems : List Json → List Text
  | [] => []
  | item :: items => write item :: writeItems items

/-- The texts of some members. -/
def writeMembers : List (Text × Json) → List Text
  | [] => []
  | (name, value) :: members => (writeString name ++ ':' :: write value) :: writeMembers members

end

/-- A value as it goes into a text: a string as it is, without quotes or escapes, anything else as
JSON. -/
def text : Json → Text
  | .string t => t
  | value => value.write

end StepPhrase.Json
