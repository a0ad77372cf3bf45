import StepPhrase.Text

/-!
# Angle parameters

Outlines of steps write a parameter as `<name>`. Everywhere else a reference is written `${name}`,
and `dollarForm` turns the one into the other. A backslash keeps an angle bracket from opening a
parameter; a bracket that no other closes on its line stays as it is.
-/

namespace StepPhrase.Reference

/-- Whether a character behind an opening bracket belongs to the name. Anything does but the closing
bracket and the end of the line, so blanks and further opening brackets do. -/
def isInAngle (c : Char) : Bool := c != '>' && c != '\n'

/-- The name behind an opening bracket, and what follows the closing one. A name has at least one
character and ends on the line where it begins. -/
def angleName? (t : Text) : Option (Text × Text) :=
  match t.dropWhile isInAngle with
  | '>' :: rest =>
    match t.takeWhile isInAngle with
    | [] => none
    | name => some (name, rest)
  | _ => none

theorem eq_of_angleName? {t name rest : Text} (h : angleName? t = some (name, rest)) :
    t = name ++ '>' :: rest := by
  unfold angleName? at h
  split at h
  · next hrest =>
    split at h
    · exact absurd h (by simp)
    · obtain ⟨rfl, rfl⟩ := Prod.mk.inj (Option.some.inj h)
      rw [← hrest, List.takeWhile_append_dropWhile]
  · exact absurd h (by simp)

theorem length_lt_of_angleName? {t name rest : Text} (h : angleName? t = some (name, rest)) :
    rest.length < t.length := by
  rw [eq_of_angleName? h, List.length_append, List.length_cons]
  omega

/-- A reference as it is written. -/
def written (name : Text) : Text := '$' :: '{' :: (name ++ ['}'])

/-- A text with its angle parameters written as references. A backslash before an opening bracket is
taken out and the bracket stays as text; other backslashes stay too. -/
def dollarForm : Text → Text
  | [] => []
  | '\\' :: '<' :: t => '<' :: dollarForm t
  | '<' :: t =>
    match _h : angleName? t with
    | some (name, rest) => written name ++ dollarForm rest
    | none => '<' :: dollarForm t
  | c :: t => c :: dollarForm t
termination_by t => t.length
decreasing_by
  · simp only [List.length_cons]
    omega
  · have := length_lt_of_angleName? _h
    simp only [List.length_cons]
    omega
  · simp
  · simp

end StepPhrase.Reference
