import StepPhrase.Reference.Angle
import StepPhrase.Unicode.WordCharacter

/-!
# Quoted references

An outline may put a reference where a call needs an argument. With quotes around it the value that
replaces it arrives as a string, whatever it looks like. Only references that are words of their own
get quotes.
-/

namespace StepPhrase.Reference

/-- Whether a character may be part of a name that gets quotes. -/
def isNameCharacter (c : Char) : Bool := Unicode.isWordCharacter c || c == '.'

/-- Whether a word is a reference to a simple name and nothing else. A name that is empty counts as
simple, since it has no character that could not be part of one. -/
def isBare : Text → Bool
  | '$' :: '{' :: t => t.getLast? == some '}' && t.dropLast.all isNameCharacter
  | _ => false

/-- A word, in single quotes if it is a reference. -/
def quoteWord (word : Text) : Text := if isBare word then '\'' :: (word ++ ['\'']) else word

/-- A text whose first word has begun already, with the characters read so far last first. -/
def quoteFrom (read : Text) : Text → Text
  | [] => quoteWord read.reverse
  | c :: t =>
    if Unicode.isWhiteSpace c then quoteWord read.reverse ++ c :: quoteFrom [] t
    else quoteFrom (c :: read) t

/-- A text with quotes around the words that are references. The blanks between the words stay as
they are. -/
def quoteWords (t : Text) : Text := quoteFrom [] t

end StepPhrase.Reference
