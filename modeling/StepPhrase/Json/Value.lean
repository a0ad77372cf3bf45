import StepPhrase.Json.Number

/-!
# JSON values

The values that properties and variables hold. The members of an object are kept in the order of
their names, code point by code point, with one member for each name, so equal objects are equal
values.
-/

namespace StepPhrase

/-- A JSON value. -/
inductive Json where
  | null
  | bool (b : Bool)
  | number (n : Json.Number)
  | string (t : Text)
  | array (items : List Json)
  /-- The members by ascending name. -/
  | object (members : List (Text × Json))
  deriving Repr, Inhabited

namespace Json

/-- Members with one more, which takes the place of one with the same name. -/
def insertMember (name : Text) (value : Json) : List (Text × Json) → List (Text × Json)
  | [] => [(name, value)]
  | (other, old) :: members =>
    if name = other then (name, value) :: members
    else if name < other then (name, value) :: (other, old) :: members
    else (other, old) :: insertMember name value members

/-- The object with these members; of those with the same name the last one counts. -/
def ofMembers (members : List (Text × Json)) : Json :=
  .object (members.foldl (fun sorted (name, value) => insertMember name value sorted) [])

/-- An integer. -/
def ofNat (n : Nat) : Json := .number (.integer n)

/-- The value of a member of an object. Values of other kinds have no members. -/
def member? (name : Text) : Json → Option Json
  | .object members => members.lookup name
  | _ => none

end Json

end StepPhrase
