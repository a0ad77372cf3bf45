/-!
# Case runs

Tables that send characters to case variants are made of runs: characters at a fixed distance from
one another whose images lie at the same distance. Distance 2 covers the alphabets in which capital
and small letters alternate.
-/

namespace StepPhrase.Unicode

/-- The code points `first`, `first + step`, … up to `last`, sent to `image`, `image + step`, … -/
structure CaseRun where
  first : Nat
  last : Nat
  step : Nat
  image : Nat
  deriving DecidableEq, Repr

namespace CaseRun

/-- The image of a code point that lies in the run. -/
def image? (run : CaseRun) (code : Nat) : Option Nat :=
  if run.first ≤ code ∧ code ≤ run.last ∧ (code - run.first) % run.step = 0 then
    some (run.image + (code - run.first))
  else none

/-- The image of a character under a table; a character in none of its runs stays as it is. -/
def apply (runs : List CaseRun) (c : Char) : Char :=
  match runs.findSome? (·.image? c.toNat) with
  | some code => Char.ofNat code
  | none => c

end CaseRun

end StepPhrase.Unicode
