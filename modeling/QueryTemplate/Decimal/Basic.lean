import QueryTemplate.Digits
import QueryTemplate.Integer

/-!
# Decimals

A decimal is an integer coefficient with a scale: `coefficient · 10 ^ (-scale)`. Trailing zeros count, so a number
has many decimals; arithmetic says which of them is the result. A scale has 64 bits. Where one leaves them, or two are
too far apart, arithmetic has no result. Comparison and equality are by value and always have one.
-/

namespace QueryTemplate

/-- `coefficient · 10 ^ (-scale)`. -/
structure Decimal where
  coefficient : Int
  scale : Int
deriving DecidableEq, Repr

namespace Decimal

/-- The bits of a scale. -/
def scaleBits : Nat := 64

/-- An integer as a decimal. -/
def ofInt (n : Int) : Decimal := ⟨n, 0⟩

/-- Whether the value is zero. -/
def isZero (a : Decimal) : Bool := a.coefficient == 0

/-- The greatest scale at which a coefficient is recognised as that of one. -/
def greatestUnitScale : Nat := 38

/-- Whether the value is one. At large scales this is not noticed, which changes the scale of results only. -/
def isOne (a : Decimal) : Bool :=
  0 ≤ a.scale && a.scale ≤ greatestUnitScale && a.coefficient == Nat.pow 10 a.scale.toNat

/-- A scale, if it fits into its bits. -/
def scale? (n : Int) : Option Int := if fitsInto scaleBits n then some n else none

/-- The coefficient of the same value at a scale that is no smaller. Zero has the same one at every scale, so no power
of ten is formed for it, however far apart the scales are. -/
def coefficientAt (a : Decimal) (scale : Int) : Int :=
  if a.isZero then 0 else a.coefficient * Nat.pow 10 (scale - a.scale).toNat

/-- Whether arithmetic brings a value to a scale that is no smaller. -/
def reaches (a : Decimal) (scale : Int) : Bool := a.isZero || fitsInto scaleBits (scale - a.scale)

protected def neg (a : Decimal) : Decimal := ⟨-a.coefficient, a.scale⟩

instance : Neg Decimal := ⟨Decimal.neg⟩

/-- The coefficients of two decimals joined at the larger scale. -/
def atLargerScale? (join : Int → Int → Int) (a b : Decimal) : Option Decimal :=
  let scale := max a.scale b.scale
  if a.reaches scale && b.reaches scale then some ⟨join (a.coefficientAt scale) (b.coefficientAt scale), scale⟩
  else none

/-- The sum, at the larger scale. -/
def add? (a b : Decimal) : Option Decimal := atLargerScale? (· + ·) a b

/-- The difference, at the larger scale; zero leaves the other operand as it is. -/
def sub? (a b : Decimal) : Option Decimal :=
  if b.isZero then some a
  else if a.isZero then some (-b)
  else atLargerScale? (· - ·) a b

/-- The product, at the sum of the scales; one leaves the other operand as it is. -/
def mul? (a b : Decimal) : Option Decimal :=
  if a.isOne then some b
  else if b.isOne then some a
  else (scale? (a.scale + b.scale)).map fun scale => ⟨a.coefficient * b.coefficient, scale⟩

/-- The digits of a quotient that are kept, before the last one is rounded. -/
def quotientDigits : Nat := 100

/-- How often the dividend is multiplied by ten until it is no smaller than the divisor, with the result. -/
def scaleUp (dividend divisor : Nat) (h : 0 < dividend) : Nat × Nat :=
  if dividend < divisor then
    let (count, scaled) := scaleUp (dividend * 10) divisor (by omega)
    (count + 1, scaled)
  else (0, dividend)
termination_by divisor - dividend

/-- Long division: from a quotient and a remainder that has been multiplied by ten, at most `count` further digits.
Yields the quotient, rounded half up in its last digit, and the number of digits that were added. -/
def longDivision (divisor : Nat) : (count quotient remainder : Nat) → Nat × Nat
  | 0, quotient, remainder => (if 5 ≤ remainder / divisor then quotient + 1 else quotient, 0)
  | count + 1, quotient, remainder =>
    if remainder = 0 then (quotient, 0)
    else
      let (q, added) := longDivision divisor count (quotient * 10 + remainder / divisor) (remainder % divisor * 10)
      (q, added + 1)

/-- The quotient of naturals with the number of its decimal places. -/
def quotient (dividend divisor : Nat) (h : 0 < dividend) : Nat × Nat :=
  let (places, scaled) := scaleUp dividend divisor h
  let whole := scaled / divisor
  let (q, added) := longDivision divisor (quotientDigits - digitCount whole) whole (scaled % divisor * 10)
  (q, places + added)

/-- The quotient by a decimal that is not zero. A dividend of zero and a divisor of one leave the dividend as it is.
The result has as many digits as it needs, up to `quotientDigits`. -/
def div? (a b : Decimal) : Option Decimal :=
  if h : a.coefficient = 0 then some a
  else if b.isOne then some a
  else do
    let scale ← scale? (a.scale - b.scale)
    if a.coefficient = b.coefficient then return ⟨1, scale⟩
    let (q, places) := quotient a.coefficient.natAbs b.coefficient.natAbs (by omega)
    return ⟨a.coefficient.sign * b.coefficient.sign * q, ← scale? (scale + places)⟩

/-- The power of ten just above the magnitude of a value other than zero. -/
def magnitude (a : Decimal) : Int := digitCount a.coefficient.natAbs - a.scale

/-- The order of the values. Values of unlike sign or magnitude are not brought to one scale. -/
protected def compare (a b : Decimal) : Ordering :=
  let sign := a.coefficient.sign
  if sign ≠ b.coefficient.sign then compare sign b.coefficient.sign
  else if sign = 0 then .eq
  else if a.magnitude ≠ b.magnitude then compare (sign * a.magnitude) (sign * b.magnitude)
  else
    let scale := max a.scale b.scale
    compare (a.coefficientAt scale) (b.coefficientAt scale)

/-- The digits of a natural number without so many zeros at their end, if it ends in as many. -/
def withoutZeros? : (count n : Nat) → Option Nat
  | 0, n => some n
  | count + 1, n => if n % 10 = 0 then withoutZeros? count (n / 10) else none

/-- Whether the values are the same. Of two coefficients of one sign that of the larger scale has to end in as many
zeros as the scales differ by, and to be the other one without these. -/
def equals (a b : Decimal) : Bool :=
  if a.coefficient.sign ≠ b.coefficient.sign then false
  else if a.isZero then true
  else if a.scale ≤ b.scale then
    withoutZeros? (b.scale - a.scale).toNat b.coefficient.natAbs == some a.coefficient.natAbs
  else withoutZeros? (a.scale - b.scale).toNat a.coefficient.natAbs == some b.coefficient.natAbs

end Decimal

end QueryTemplate
