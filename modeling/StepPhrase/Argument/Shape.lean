import StepPhrase.Pattern

/-!
# Shapes of arguments

What an argument looks like on the page decides how it is handed on: a map in braces, a list in
brackets, a quoted string, an integer or a decimal number. `Shape.pattern` describes each of them,
`Shape.token` all that may fill a slot.
-/

namespace StepPhrase

/-- The look of an argument. -/
inductive Shape where
  /-- A text in single or double quotes. -/
  | string
  /-- Anything in braces on one line. -/
  | map
  /-- Anything in brackets on one line. -/
  | list
  /-- An integer, signed or not. -/
  | long
  /-- A number with or without a fraction, signed or not. -/
  | double
  /-- None of these. -/
  | any
  /-- No argument at all. -/
  | optional
  deriving DecidableEq, Repr

namespace Shape

/-- Every shape, in the order in which they are listed. -/
def all : List Shape := [.string, .map, .list, .long, .double, .any, .optional]

/-- The order in which the shapes of a text are tried. An integer is also a number, so it comes
before the numbers; whatever has none of these shapes is `any`. -/
def order : List Shape := [.map, .list, .string, .long, .double]

/-- The name by which a shape is reported. -/
def tag : Shape → Text
  | .string => "STRING".toList
  | .map => "MAP".toList
  | .list => "LIST".toList
  | .long => "LONG".toList
  | .double => "DOUBLE".toList
  | .any => "ANY".toList
  | .optional => "OPTIONAL".toList

/-- The parameter that an implementation declares for an argument of the shape. -/
def signature : Shape → Text
  | .string => "String str".toList
  | .map => "Map<Object,Object> mapObj".toList
  | .list => "Object[] objArray".toList
  | .long => "long l".toList
  | .double => "double d".toList
  | .any => "Object anyObj".toList
  | .optional => "Object optionalObj".toList

/-- Anything on one line between two characters. -/
def enclosed (opening closing : Char) : Pattern :=
  .seq (.char opening) (.seq (.star .inLine) (.char closing))

/-- A text in quotes. Inside, a backslash may stand only in front of a backslash or the quote, and
the quote only behind a backslash. -/
def quoted (quote : Char) : Pattern :=
  .seq (.char quote)
    (.seq
      (.star
        (.alt (.anyBut ['\\', quote])
          (.alt (Pattern.word '\\' ['\\']) (Pattern.word '\\' [quote]))))
      (.char quote))

/-- The sign of a number, if it has one. -/
def sign : Pattern := .opt (.oneOf ['-', '+'])

/-- What a text of the shape looks like. -/
def pattern : Shape → Pattern
  | .string => .alt (quoted '\'') (quoted '"')
  | .map => enclosed '{' '}'
  | .list => enclosed '[' ']'
  | .long => .seq sign (.plus .digit)
  | .double => .seq sign (.seq (.plus .digit) (.opt (.seq (.char '.') (.plus .digit))))
  | .any => .star .inLine
  | .optional =>
    .seq (Pattern.word '(' ['?', ':']) (.seq (.star .inLine) (Pattern.word ')' ['?']))

/-- What may fill a slot. Integers are left out, being numbers already. -/
def token : Pattern :=
  .alt map.pattern (.alt list.pattern (.alt string.pattern double.pattern))

end Shape

end StepPhrase
