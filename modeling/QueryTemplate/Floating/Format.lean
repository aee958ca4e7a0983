/-!
# Binary floating-point formats

The two formats of the language, of 32 and of 64 bits, differ in the widths of their fields only. A bit pattern
is taken apart into the number that it stands for: a sign and `mantissa · 2 ^ exponent` with exact integers.
-/

namespace QueryTemplate.Floating

/-- The field widths of a format. -/
structure Format where
  /-- Bits of the stored fraction. -/
  fractionBits : Nat
  /-- Bits of the stored exponent. -/
  exponentBits : Nat

/-- The 32-bit format. -/
def Format.single : Format := ⟨23, 8⟩

/-- The 64-bit format. -/
def Format.double : Format := ⟨52, 11⟩

/-- A finite number other than zero, without its sign: `mantissa · 2 ^ exponent`. -/
structure Magnitude where
  mantissa : Nat
  exponent : Int
  /-- Whether the next smaller number of the format is half as far away as the next larger one. -/
  halfBelow : Bool
deriving DecidableEq, Repr

/-- What a bit pattern stands for. -/
inductive Decoded
  | nan
  | infinite (negative : Bool)
  | zero (negative : Bool)
  | finite (negative : Bool) (magnitude : Magnitude)
deriving DecidableEq, Repr

/-- Take a bit pattern apart. The least stored exponent has no implicit leading bit; the greatest is kept for
infinities and for what is not a number. -/
def Format.decode (format : Format) (bits : Nat) : Decoded :=
  let leading := Nat.pow 2 format.fractionBits
  let exponents := Nat.pow 2 format.exponentBits
  let fraction := bits % leading
  let biased := bits / leading % exponents
  let negative := bits / (leading * exponents) % 2 == 1
  let unit : Int := 2 - Nat.pow 2 (format.exponentBits - 1) - format.fractionBits
  if biased + 1 = exponents then
    if fraction = 0 then .infinite negative else .nan
  else if biased = 0 then
    if fraction = 0 then .zero negative else .finite negative ⟨fraction, unit, false⟩
  else
    .finite negative ⟨leading + fraction, unit + (biased - 1 : Nat), fraction == 0 && biased > 1⟩

/-- What a number of the machine stands for. -/
def decodeDouble (x : Float) : Decoded := Format.double.decode x.toBits.toNat

end QueryTemplate.Floating
