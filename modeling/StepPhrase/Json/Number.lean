import StepPhrase.Decimal.Shortest

/-!
# Numbers in JSON

An integer of 64 bits, with a sign or without, is kept as it is; every other number is a binary
floating-point number. Reading one keeps the leading digits that fit 64 bits, counts the others into
the exponent, and scales once by a power of ten, so a long fraction may come out one place off the
nearest number.
-/

namespace StepPhrase.Json

/-- A number as JSON text can hold it. -/
inductive Number where
  | integer (n : Int)
  | double (x : Float)
  deriving DecidableEq, Repr

namespace Number

/-! ### Reading -/

/-- The digits of a number read so far: `value · 10 ^ exponent`. -/
structure Significand where
  value : Nat
  exponent : Int
  /-- Whether a digit had to be left out of the value. -/
  full : Bool

namespace Significand

/-- The value with one more digit, if that fits 64 bits. -/
def push? (s : Significand) (digit : Char) : Option Nat :=
  let next := 10 * s.value + (digit.toNat - '0'.toNat)
  if s.full || UInt64.size ≤ next then none else some next

/-- One more digit in front of the decimal point. -/
def pushWhole (s : Significand) (digit : Char) : Significand :=
  match s.push? digit with
  | some value => { s with value }
  | none => { s with exponent := s.exponent + 1, full := true }

/-- One more digit behind the decimal point. -/
def pushFraction (s : Significand) (digit : Char) : Significand :=
  match s.push? digit with
  | some value => { s with value, exponent := s.exponent - 1 }
  | none => { s with full := true }

/-- The significand of the digits before and behind the point. -/
def ofDigits (whole fraction : Text) : Significand :=
  fraction.foldl pushFraction { whole.foldl pushWhole ⟨0, 0, false⟩ with full := false }

end Significand

/-- The largest power of ten that is scaled by in one step. -/
def largestPower : Nat := 308

/-- The floating-point number nearest to a power of ten. -/
def powerOfTen (k : Nat) : Float := Float.ofScientific 1 false k

/-- A floating-point number divided by a power of ten. -/
def scaleDown (x : Float) (k : Nat) : Float :=
  if k ≤ largestPower then x / powerOfTen k
  else if x == 0 then x
  else scaleDown (x / powerOfTen largestPower) (k - largestPower)
termination_by k
decreasing_by simp only [largestPower] at *; omega

/-- A floating-point number times a power of ten, if that is not too large. -/
def scale? (x : Float) (k : Int) : Option Float :=
  if k < 0 then some (scaleDown x k.natAbs)
  else if k ≤ largestPower then
    let y := x * powerOfTen k.toNat
    if y.isInf then none else some y
  else if x == 0 then some x
  else none

/-- The bound on an exponent as written. -/
def exponentBound : Nat := Nat.pow 2 31

/-- A floating-point number from its sign, its digits and the exponent as written. -/
def double? (negative : Bool) (s : Significand) (exponent : Int) : Option Number :=
  let magnitude? :=
    if exponent.natAbs < exponentBound then
      scale? s.value.toUInt64.toFloat (s.exponent + exponent)
    else if exponent < 0 ∨ s.value = 0 then some 0
    else none
  magnitude?.map fun x => .double (if negative then -x else x)

/-- An integer if it fits 64 bits. Zero with a sign does not. -/
def integer? (negative : Bool) (n : Nat) : Option Number :=
  if negative then
    if n ≠ 0 ∧ 2 * n ≤ UInt64.size then some (.integer (-n)) else none
  else if n < UInt64.size then some (.integer n) else none

/-- The digits behind a decimal point, if there is one, and what follows them. -/
def readFraction? : Text → Option (Text × Text)
  | '.' :: t =>
    match t.span Char.isDigit with
    | ([], _) => none
    | parts => some parts
  | t => some ([], t)

/-- The number that some digits denote. -/
def natOfDigits (digits : Text) : Nat := Nat.ofDigitChars 10 digits 0

/-- The exponent that follows an `e`. -/
def readExponent? (t : Text) : Option Int :=
  let (negative, digits) := match t with
    | '-' :: digits => (true, digits)
    | '+' :: digits => (false, digits)
    | _ => (false, t)
  if digits ≠ [] ∧ digits.all Char.isDigit then
    let n := natOfDigits digits
    some (if negative then -n else n)
  else none

/-- The number that the whole of a text denotes. -/
def read? (t : Text) : Option Number :=
  let (negative, t) := match t with
    | '-' :: rest => (true, rest)
    | _ => (false, t)
  let (whole, t) := t.span Char.isDigit
  if whole = [] ∨ (whole.head? = some '0' ∧ whole.length ≠ 1) then none
  else
    match readFraction? t with
    | none => none
    | some ([], []) =>
      (integer? negative (natOfDigits whole)).or (double? negative (.ofDigits whole []) 0)
    | some (fraction, []) => double? negative (.ofDigits whole fraction) 0
    | some (fraction, c :: t) =>
      if c = 'e' ∨ c = 'E' then
        (readExponent? t).bind (double? negative (.ofDigits whole fraction))
      else none

/-! ### Writing -/

/-- How floating-point numbers are written. -/
structure Style where
  /-- The exponents of the first digit for which no exponent is written: from here … -/
  positionalFrom : Int
  /-- … to below here. -/
  positionalBelow : Int

/-- Numbers from a hundred thousandth to below ten to the sixteenth are written without exponent. -/
def style : Style := ⟨-5, 16⟩

/-- Digits with a point behind the first `n`. -/
def withPoint (digits : Text) (n : Nat) : Text :=
  digits.take n ++ '.' :: digits.drop n

/-- A decimal without exponent, with at least one digit on either side of the point. -/
def positional (digits : Text) (first : Int) : Text :=
  if first < 0 then '0' :: '.' :: (List.replicate (-first - 1).toNat '0' ++ digits)
  else
    let n := first.toNat + 1
    if digits.length ≤ n then digits ++ List.replicate (n - digits.length) '0' ++ ".0".toList
    else withPoint digits n

/-- A decimal with its exponent, which has a sign. -/
def scientific (digits : Text) (first : Int) : Text :=
  (if digits.length = 1 then digits else withPoint digits 1)
    ++ 'e' :: (if first < 0 then '-' else '+') :: Text.ofNat first.natAbs

/-- A decimal written in a style. -/
def writeDecimal (style : Style) (d : Decimal) : Text :=
  let digits := Text.ofNat d.digits
  let first := d.exponent + digits.length - 1
  if style.positionalFrom ≤ first ∧ first < style.positionalBelow then positional digits first
  else scientific digits first

/-- The number of exponents that a floating-point number may have; as bits they stand between the
sign and the fraction. -/
def exponentCount : Nat := 2048

/-- A finite floating-point number, by its shortest decimal. -/
def writeDouble (x : Float) : Text :=
  let bits := x.toBits.toNat
  let fraction := bits % Decimal.leadingBit
  let head := bits / Decimal.leadingBit
  let biased := head % exponentCount
  let magnitude :=
    if biased = 0 ∧ fraction = 0 then "0.0".toList
    else if biased = 0 then writeDecimal style (Decimal.shortest fraction (-1074))
    else writeDecimal style
      (Decimal.shortest (fraction + Decimal.leadingBit) ((biased : Int) - 1075))
  if head < exponentCount then magnitude else '-' :: magnitude

/-- An integer in decimal notation. -/
def writeInt (n : Int) : Text :=
  if n < 0 then '-' :: Text.ofNat n.natAbs else Text.ofNat n.natAbs

/-- The text of a number. -/
def write : Number → Text
  | .integer n => writeInt n
  | .double x => writeDouble x

end Number

end StepPhrase.Json
