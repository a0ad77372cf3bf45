import StepPhrase.Text
import StepPhrase.Unicode.CaseFolding
import StepPhrase.Unicode.LowerCase

/-!
# Texts compared without regard to case

There are two ways to call two characters the same but for case: they fold to one character, or
their lower-case forms agree. Folding decides whether a call fits a template; lower-casing decides
where a literal first occurs in a call. Reading a literal off the front of a text and searching for
one are the same walk for both, so they take the comparison as an argument.
-/

namespace StepPhrase.Text

/-- Two characters that fold to the same character. This is the comparison that expressions make. -/
def sameFolded (a b : Char) : Bool := a == b || Unicode.foldCase a == Unicode.foldCase b

/-- Two characters with the same lower-case form, which may be of more than one character. This is
the comparison that searching for a literal makes. -/
def sameLowered (a b : Char) : Bool := a == b || Unicode.lowerCase a == Unicode.lowerCase b

/-- What is left of a text after a literal at its front, character for character the same. -/
def dropLiteral? (same : Char → Char → Bool) : Text → Text → Option Text
  | [], t => some t
  | _ :: _, [] => none
  | l :: literal, c :: t => if same l c then dropLiteral? same literal t else none

/-- What is left of a text after the first occurrence of a literal. Occurrences are tried from the
left, and what stands in front of the first is dropped too. -/
def dropThrough? (same : Char → Char → Bool) (literal : Text) : Text → Option Text
  | [] => none
  | c :: t =>
    match dropLiteral? same literal (c :: t) with
    | some rest => some rest
    | none => dropThrough? same literal t

/-- Whether a text begins with a literal. -/
def beginsWith (same : Char → Char → Bool) (literal t : Text) : Bool :=
  (dropLiteral? same literal t).isSome

end StepPhrase.Text
