import QueryTemplate.Floating.Shortest

/-!
# Floating-point numbers as text

Both written forms use the shortest digits that read back. The positional form never has an exponent; the compact
form has one for very large and very small numbers, and is that of a token's payload.
-/

namespace QueryTemplate.Floating

/-- `n` zeros. -/
def zeros (n : Nat) : String := String.ofList (List.replicate n '0')

namespace Digits

/-- The decimal in positional notation, with a point only where there are digits after it. -/
def positional (d : Digits) : String :=
  let ds := naturalText d.digits
  let places := (-d.exponent).toNat
  if places = 0 then ds ++ zeros d.exponent.toNat
  else if places < ds.length then
    String.ofList (ds.toList.take (ds.length - places)) ++ "." ++ String.ofList (ds.toList.drop (ds.length - places))
  else "0." ++ zeros (places - ds.length) ++ ds

/-- The power of ten of the first digit. -/
def leadingPower (d : Digits) : Int :=
  d.exponent + (digitCount d.digits - 1 : Nat)

/-- The decimal as one digit, the others after a point, and a power of ten. -/
def scientific (d : Digits) : String :=
  let ds := (naturalText d.digits).toList
  let rest := String.ofList (ds.drop 1)
  String.ofList (ds.take 1) ++ (if rest.isEmpty then "" else "." ++ rest) ++ "e" ++ toString d.leadingPower

end Digits

/-- A minus sign if the number is negative. -/
def sign (negative : Bool) : String := if negative then "-" else ""

/-- A text that is surely that of a fractional number: `.0` is added where there is no point. -/
def withPoint (s : String) : String :=
  if s.toList.contains '.' then s else s ++ ".0"

namespace Decoded

/-- Positional notation, without a point where there are no digits after it. -/
def plain : Decoded → String
  | nan => "NaN"
  | infinite negative => sign negative ++ "inf"
  | zero negative => sign negative ++ "0"
  | finite negative m => sign negative ++ m.shortest.positional

/-- The text of a value: positional notation, always with a point. -/
def display : Decoded → String
  | nan => "NaN"
  | infinite negative => sign negative ++ "Infinity"
  | d => withPoint d.plain

/-- The text of a payload: with a power of ten from `10 ^ 16` on and below `10 ^ -4`. -/
def compact : Decoded → String
  | finite negative m =>
    let d := m.shortest
    if d.leadingPower ≥ 16 ∨ d.leadingPower < -4 then sign negative ++ d.scientific
    else withPoint (sign negative ++ d.positional)
  | zero negative => withPoint (sign negative ++ "0")
  | d => d.plain

end Decoded

end QueryTemplate.Floating
