import QueryTemplate.Floating.Format
import QueryTemplate.Digits

/-!
# Shortest decimal digits

Of the decimals that round to a given binary number, the shortest are those with the fewest digits, and of these
the one nearest to the number is chosen; of two that are equally near, the larger. The search is in exact integer
arithmetic: for 1, 2, … digits it tries the two neighbours of the number on that decimal grid.
-/

namespace QueryTemplate.Floating

/-- A decimal: `digits · 10 ^ exponent`. -/
structure Digits where
  digits : Nat
  exponent : Int
deriving DecidableEq, Repr

namespace Magnitude

/-- A number with the ends of the interval of reals that round to it, as fractions over one denominator. -/
structure Window where
  low : Nat
  value : Nat
  high : Nat
  /-- Whether the ends themselves round to the number: halves go to the even neighbour. -/
  closed : Bool
  /-- The common denominator of `low`, `value` and `high`. -/
  denominator : Nat

/-- The reals that round to the number: up to halfway to its neighbours. -/
def window (m : Magnitude) : Window :=
  let scale := Nat.pow 2 m.exponent.toNat
  { low := (4 * m.mantissa - if m.halfBelow then 1 else 2) * scale
    value := 4 * m.mantissa * scale
    high := (4 * m.mantissa + 2) * scale
    closed := m.mantissa % 2 == 0
    denominator := 4 * Nat.pow 2 (-m.exponent).toNat }

namespace Window

/-- The power of ten just above the number: `10 ^ (e - 1) ≤ value < 10 ^ e`. -/
def magnitudeOfTen (w : Window) : Int :=
  if w.denominator ≤ w.value then digitCount (w.value / w.denominator)
  else
    let zeros := digitCount (w.denominator / w.value) - 1
    if w.denominator = w.value * Nat.pow 10 zeros then 1 - zeros else -zeros

/-- The same window with all numbers divided by `10 ^ k`. -/
def shift (w : Window) (k : Int) : Window :=
  let up := Nat.pow 10 (-k).toNat
  let down := Nat.pow 10 k.toNat
  { w with low := w.low * up, value := w.value * up, high := w.high * up, denominator := w.denominator * down }

/-- Whether the natural number `n` lies in the window. -/
def contains (w : Window) (n : Nat) : Bool :=
  let x := n * w.denominator
  if w.closed then w.low ≤ x && x ≤ w.high else w.low < x && x < w.high

/-- The natural number nearest to the value among its two neighbours that lie in the window. -/
def nearest? (w : Window) : Option Nat :=
  let below := w.value / w.denominator
  let rest := w.value % w.denominator
  match w.contains below, w.contains (below + 1) with
  | true, true => some (if 2 * rest < w.denominator then below else below + 1)
  | true, false => some below
  | false, true => some (below + 1)
  | false, false => none

/-- The nearest decimal of at most `count` digits in the window. -/
def withDigits? (w : Window) (count : Nat) : Option Digits :=
  let exponent := w.magnitudeOfTen - count
  (w.shift exponent).nearest?.map (⟨·, exponent⟩)

end Window

/-- So many digits always suffice, in both formats. -/
def enoughDigits : Nat := 17

/-- Digits without the zeros at their end. -/
def trimZeros : Nat → Digits → Digits
  | 0, d => d
  | fuel + 1, d => if d.digits % 10 = 0 then trimZeros fuel ⟨d.digits / 10, d.exponent + 1⟩ else d

/-- All digits of the number. -/
def exactDigits (m : Magnitude) : Digits :=
  ⟨m.mantissa * Nat.pow 2 m.exponent.toNat * Nat.pow 5 (-m.exponent).toNat, min m.exponent 0⟩

/-- The shortest decimal that rounds to the number, the nearest of those. -/
def shortest (m : Magnitude) : Digits :=
  let w := m.window
  let found := (List.range enoughDigits).findSome? fun n => w.withDigits? (n + 1)
  trimZeros enoughDigits (found.getD m.exactDigits)

end Magnitude

end QueryTemplate.Floating
