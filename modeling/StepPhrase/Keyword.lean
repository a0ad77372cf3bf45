import StepPhrase.Bindings
import StepPhrase.Engine

/-!
# Keywords

A call may begin with one of seven keywords or with a synonym of one. Synonyms are configured: the
property named like the keyword lists them, as a text with semicolons or as an array.
-/

namespace StepPhrase

/-- The words that a step may begin with. -/
inductive Keyword where
  | given
  | when
  | then
  | and
  | using
  | having
  | with
  deriving DecidableEq, Repr

namespace Keyword

/-- Every keyword, in the order in which they are tried. -/
def all : List Keyword := [.given, .when, .then, .and, .using, .having, .with]

/-- A keyword as written. -/
def name : Keyword → Text
  | .given => "Given".toList
  | .when => "When".toList
  | .then => "Then".toList
  | .and => "And".toList
  | .using => "Using".toList
  | .having => "Having".toList
  | .with => "With".toList

/-- The keyword that a text is, whatever the case of its letters and the blanks around it. Synonyms
do not count here: they are no keywords but stand for one. -/
def ofText? (t : Text) : Option Keyword :=
  all.find? fun k => k.name.map Char.toLower = t.trim.map Char.toLower

/-- The complaint about a text that is no keyword. -/
def invalid (t : Text) : Text := "invalid step keyword: ".toList ++ t.trim

end Keyword

namespace Bindings

/-- The entries of a property that lists texts, as they are written. A text is divided at its
semicolons; the items of an array are entries as they are; null has none, and any other value is one
entry. -/
def rawEntries : Json → List Text
  | .null => []
  | .string t => t.splitOn ';'
  | .array items => items.map Json.text
  | value => [value.write]

/-- The entries of a property that lists texts, without the blanks around them; blank entries do
not count. -/
def listed (value : Json) : List Text :=
  ((rawEntries value).map Text.trim).filter (· ≠ [])

/-- The synonyms that are configured under a name, in the order in which they are listed; none where
the name is no property. -/
def synonyms (b : Bindings) (name : Text) : List Text :=
  match b.get? name with
  | some value => listed value
  | none => []

/-- Every keyword, each followed by its synonyms. This is the order in which they are tried on a
call, so a synonym may be hidden by a keyword that comes earlier. -/
def keywords (b : Bindings) : List Text :=
  Keyword.all.flatMap fun k => k.name :: b.synonyms k.name

/-- The choice between all keywords at the beginning of a text, as a regular expression. -/
def keywordPattern (b : Bindings) : Text := (Expression.leading b.keywords).source

end Bindings

end StepPhrase
