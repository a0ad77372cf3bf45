import StepPhrase.Text

/-!
# Shortest decimals

The shortest decimal of a binary floating-point number is the one with the fewest digits among those
that read back as that number; of several, the nearest. The reals that read back as `m · 2 ^ q` form
an interval around it, which `Interval` keeps in quarters of `2 ^ q` so that all comparisons are
between natural numbers.
-/

namespace StepPhrase

/-- The number `digits · 10 ^ exponent`. -/
structure Decimal where
  digits : Nat
  exponent : Int
  deriving DecidableEq, Repr

namespace Decimal

/-- The leading bit of a significand of full length, which has 53 bits. -/
def leadingBit : Nat := Nat.pow 2 52

/-- The interval of reals around `value`, all in units of `2 ^ scale`. -/
structure Interval where
  low : Nat
  value : Nat
  high : Nat
  /-- Whether the two ends belong to it. -/
  closed : Bool
  scale : Int

namespace Interval

/-- The reals that read back as `m · 2 ^ q`. Below a power of two the next number is half as far. -/
def around (m : Nat) (q : Int) : Interval :=
  { low := 4 * m - (if m = leadingBit ∧ -1074 < q then 1 else 2)
    value := 4 * m
    high := 4 * m + 2
    closed := m % 2 = 0
    scale := q - 2 }

/-- A unit of the interval over a unit of the grid of multiples of `10 ^ k`, as a fraction. -/
def unit (i : Interval) (k : Int) : Nat × Nat :=
  (Nat.pow 2 i.scale.toNat * Nat.pow 10 (-k).toNat, Nat.pow 2 (-i.scale).toNat * Nat.pow 10 k.toNat)

/-- Whether `d · 10 ^ k` lies in the interval. -/
def has (i : Interval) (k : Int) (d : Nat) : Bool :=
  let (a, b) := i.unit k
  if i.closed then i.low * a ≤ d * b && d * b ≤ i.high * a
  else i.low * a < d * b && d * b < i.high * a

/-- Whether the value is at least `10 ^ k`. -/
def reaches (i : Interval) (k : Int) : Bool :=
  let (a, b) := i.unit k
  b ≤ i.value * a

/-- The exponent of the value's first decimal digit. -/
def exponent (i : Interval) : Int :=
  let estimate := (((i.value.log2 : Int) + i.scale) * 30103).fdiv 100000
  if i.reaches (estimate + 1) then estimate + 1
  else if i.reaches estimate then estimate
  else estimate - 1

/-- The multiple of `10 ^ k` in the interval that is nearest to the value; of two as near the even
one. -/
def nearest? (i : Interval) (k : Int) : Option Decimal :=
  let (a, b) := i.unit k
  let below := i.value * a / b
  let rest := i.value * a - below * b
  let upper := b < 2 * rest || (b == 2 * rest && below % 2 == 1)
  let first := if upper then below + 1 else below
  let second := if upper then below else below + 1
  if i.has k first then some ⟨first, k⟩
  else if i.has k second then some ⟨second, k⟩
  else none

end Interval

/-- The shortest decimal of `m · 2 ^ q`. The search starts one place above the first digit, where a
number just below a power of ten rounds up to it; seventeen digits always suffice. -/
def shortest (m : Nat) (q : Int) : Decimal :=
  let i := Interval.around m q
  let coarsest := i.exponent + 1
  ((List.range 18).findSome? fun (n : Nat) => i.nearest? (coarsest - n)).getD ⟨m, 0⟩

end Decimal

end StepPhrase
