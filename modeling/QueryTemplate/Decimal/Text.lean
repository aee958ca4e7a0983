import QueryTemplate.Decimal.Basic

/-!
# Decimals as text

A decimal is written with all its digits. Very small values are written with one digit before the point and a power
of ten; integers with many zeros that are not significant are written with the power of ten that they stand for.
-/

namespace QueryTemplate

/-- The number that digits denote; underscores between them are passed over. -/
def digitsWithUnderscores? : List Char → Option Nat
  | [] => none
  | '_' :: _ => none
  | cs =>
    if cs.all fun c => c.isDigit || c == '_' then
      some (digitsValue (cs.filter Char.isDigit))
    else none

/-- An integer as it is read: a sign, digits, and underscores after the first digit. -/
def readInteger? : List Char → Option Int
  | '-' :: cs => (digitsWithUnderscores? cs).map fun n => -(n : Int)
  | '+' :: cs => (digitsWithUnderscores? cs).map Int.ofNat
  | cs => (digitsWithUnderscores? cs).map Int.ofNat

/-- An integer of at most 128 bits: a sign and digits. -/
def readExponent? (cs : List Char) : Option Int :=
  let (negative, digits) := match cs with
    | '-' :: ds => (true, ds)
    | '+' :: ds => (false, ds)
    | ds => (false, ds)
  if digits.isEmpty || !digits.all Char.isDigit then none
  else
    let n : Int := digitsValue digits
    let value := if negative then -n else n
    if fitsInto 128 value then some value else none

namespace Decimal

/-- Whether a character introduces the power of ten. -/
def isExponentMark (c : Char) : Bool := c == 'e' || c == 'E'

/-- The digits of a mantissa without its point, and its decimal places. -/
def splitMantissa (cs : List Char) : List Char × Nat :=
  match cs.dropWhile (· != '.') with
  | _ :: [] => (cs.dropLast, 0)
  | _ :: places => (cs.takeWhile (· != '.') ++ places, places.countP (· != '_'))
  | [] => (cs, 0)

/-- A decimal as it is read: an integer with an optional point, and an optional power of ten. The scale has to fit
into its bits. -/
def ofString? (s : String) : Option Decimal := do
  let cs := s.toList
  let mantissa := cs.takeWhile (!isExponentMark ·)
  let exponent ← match cs.dropWhile (!isExponentMark ·) with
    | [] => some 0
    | _ :: power => readExponent? power
  if mantissa.isEmpty then none
  let (digits, places) := splitMantissa mantissa
  let scale := places - exponent
  if !fitsInto scaleBits scale then none
  let coefficient ← readInteger? digits
  return ⟨coefficient, scale⟩

/-- So many zeros may follow the point before a power of ten is written. -/
def leadingZeros : Int := 5

/-- So many zeros may stand at the end of an integer before a power of ten is written. -/
def trailingZeros : Int := 15

/-- The digits of a coefficient with the point where the scale puts it. -/
def positional (digits : List Char) (scale : Int) : List Char :=
  let places := scale.toNat
  if places = 0 then digits ++ List.replicate (-scale).toNat '0'
  else if places < digits.length then
    digits.take (digits.length - places) ++ '.' :: digits.drop (digits.length - places)
  else '0' :: '.' :: List.replicate (places - digits.length) '0' ++ digits

/-- The text of a decimal. -/
protected def toString (a : Decimal) : String :=
  if a.coefficient = 0 then "0"
  else
    let digits := naturalDigits a.coefficient.natAbs
    let sign := if a.coefficient < 0 then "-" else ""
    if a.scale - digits.length > leadingZeros then
      let fraction := match digits.drop 1 with
        | [] => []
        | ds => '.' :: ds
      sign ++ String.ofList (digits.take 1 ++ fraction) ++ "E" ++ toString ((digits.length : Int) - 1 - a.scale)
    else if -a.scale > trailingZeros then
      sign ++ String.ofList digits ++ "e+" ++ toString (-a.scale)
    else sign ++ String.ofList (positional digits a.scale)

instance : ToString Decimal := ⟨Decimal.toString⟩

end Decimal

end QueryTemplate
