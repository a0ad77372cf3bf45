import StepPhrase.Template
import StepPhrase.Text.Caseless
import StepPhrase.Keyword

/-!
# Leading keywords

Keywords are recognised whatever their case, and in their order: the first one in the list that a
text begins with is the one it begins with, even if a longer one follows in the list.
-/

namespace StepPhrase

namespace Keyword

/-- What follows a keyword at the beginning of a text. Case is of no account, and the keyword may
end in the middle of a word. -/
def drop? (keyword t : Text) : Option Text := Text.dropLiteral? Text.sameFolded keyword t

/-- The keyword that a text begins with, as it stands in the text. Without an expression for the
keywords no text begins with one. -/
def leading? (engine : Engine) (keywords : List Text) (t : Text) : Option Text :=
  if engine.compiles (.leading keywords) then
    (keywords.find? fun keyword => (drop? keyword t).isSome).map fun keyword =>
      t.take keyword.length
  else none

/-- What follows a keyword and the blanks behind it, of which there has to be one. -/
def dropWithBlanks? (t keyword : Text) : Option Text :=
  match drop? keyword t with
  | some (c :: rest) =>
    if Unicode.isWhiteSpace c then some (rest.dropWhile Unicode.isWhiteSpace) else none
  | _ => none

/-- A text without the first keyword that it begins with and the blanks behind that. Without an
expression for the keywords none is taken off. -/
def strip? (engine : Engine) (keywords : List Text) (t : Text) : Option Text :=
  if engine.compiles (.stripping keywords) then
    keywords.findSome? (dropWithBlanks? t)
  else none

end Keyword

namespace Template

/-- A template without the keyword that its first literal begins with. A literal that has nothing
else in it goes away; the slots keep their places in the definition. -/
def withoutKeyword (engine : Engine) (keywords : List Text) (t : Template) : Template :=
  match t.pieces with
  | .literal first :: pieces =>
    match Keyword.strip? engine keywords first with
    | some [] => { t with pieces }
    | some rest => { t with pieces := .literal rest :: pieces }
    | none => t
  | _ => t

end Template

end StepPhrase
