import QueryTemplate.Floating.Format

/-!
# Floating-point numbers

A number of a format is its bit pattern, so that what is not a number keeps its sign and its payload. On numbers an
operation is that of the machine. It passes on what is not a number, made quiet, and yields a fixed pattern where it has
no result.
-/

namespace QueryTemplate.Floating

namespace Format

variable (format : Format)

/-- The weight of the sign in a bit pattern. -/
def signWeight : Nat := Nat.pow 2 (format.fractionBits + format.exponentBits)

/-- The weight of the bit that tells a quiet pattern from a signalling one. -/
def quietWeight : Nat := Nat.pow 2 (format.fractionBits - 1)

/-- The bit pattern of infinity. -/
def infinity : Nat := (Nat.pow 2 format.exponentBits - 1) * Nat.pow 2 format.fractionBits

/-- Whether a bit pattern is not that of a number. -/
def isNaN (bits : Nat) : Bool := format.decode bits == .nan

/-- The bit pattern with the other sign. -/
def negated (bits : Nat) : Nat :=
  if bits < format.signWeight then bits + format.signWeight else bits - format.signWeight

/-- The quiet pattern for one that is not a number. -/
def quieted (bits : Nat) : Nat :=
  if bits / format.quietWeight % 2 = 1 then bits else bits + format.quietWeight

/-- What an operation on numbers yields that has no result. -/
def indefinite : Nat := format.signWeight + format.infinity + format.quietWeight

/-- The result of an operation that is given on numbers. Of two operands that are not numbers the first is passed on. -/
def operate (operation : Nat → Nat → Nat) (x y : Nat) : Nat :=
  if format.isNaN x then format.quieted x
  else if format.isNaN y then format.quieted y
  else
    let result := operation x y
    if format.isNaN result then format.indefinite else result

/-- The bit pattern in another format for one that is not a number: the sign and the leading bits of the payload. -/
def convertedNaN (target : Format) (bits : Nat) : Nat :=
  let fraction := bits % Nat.pow 2 format.fractionBits
  let payload := fraction * Nat.pow 2 target.fractionBits / Nat.pow 2 format.fractionBits
  let sign := if bits < format.signWeight then 0 else target.signWeight
  target.quieted (sign + target.infinity + payload)

/-- The place of a bit pattern in the total order: negative numbers, negative zero, positive zero, positive numbers,
and around them what is not a number, by its sign. It is the order of the patterns, reversed for the negative ones. -/
def orderKey (bits : Nat) : Int :=
  if bits < format.signWeight then bits else -(bits - format.signWeight : Nat) - 1

end Format

/-- A number of the 32-bit format. -/
structure Single where
  bits : UInt32
deriving DecidableEq, Repr

/-- A number of the 64-bit format. -/
structure Double where
  bits : UInt64
deriving DecidableEq, Repr

namespace Single

def ofFloat32 (x : Float32) : Single := ⟨x.toBits⟩

def decode (x : Single) : Decoded := Format.single.decode x.bits.toNat

/-- The result of an operation that is given on numbers of the machine. -/
def operate (operation : Float32 → Float32 → Float32) (x y : Single) : Single :=
  let onBits (x y : Nat) : Nat := (operation (.ofBits (.ofNat x)) (.ofBits (.ofNat y))).toBits.toNat
  ⟨.ofNat (Format.single.operate onBits x.bits.toNat y.bits.toNat)⟩

instance : Add Single := ⟨operate (· + ·)⟩
instance : Sub Single := ⟨operate (· - ·)⟩
instance : Mul Single := ⟨operate (· * ·)⟩
instance : Div Single := ⟨operate (· / ·)⟩
instance : Neg Single := ⟨fun x => ⟨.ofNat (Format.single.negated x.bits.toNat)⟩⟩

/-- The total order. -/
protected def compare (x y : Single) : Ordering :=
  Ord.compare (Format.single.orderKey x.bits.toNat) (Format.single.orderKey y.bits.toNat)

/-- The same number in the wider format. -/
def toDouble (x : Single) : Double :=
  if Format.single.isNaN x.bits.toNat then ⟨.ofNat (Format.single.convertedNaN .double x.bits.toNat)⟩
  else ⟨(Float32.ofBits x.bits).toFloat.toBits⟩

end Single

namespace Double

def ofFloat (x : Float) : Double := ⟨x.toBits⟩

def decode (x : Double) : Decoded := Format.double.decode x.bits.toNat

/-- The result of an operation that is given on numbers of the machine. -/
def operate (operation : Float → Float → Float) (x y : Double) : Double :=
  let onBits (x y : Nat) : Nat := (operation (.ofBits (.ofNat x)) (.ofBits (.ofNat y))).toBits.toNat
  ⟨.ofNat (Format.double.operate onBits x.bits.toNat y.bits.toNat)⟩

instance : Add Double := ⟨operate (· + ·)⟩
instance : Sub Double := ⟨operate (· - ·)⟩
instance : Mul Double := ⟨operate (· * ·)⟩
instance : Div Double := ⟨operate (· / ·)⟩
instance : Neg Double := ⟨fun x => ⟨.ofNat (Format.double.negated x.bits.toNat)⟩⟩

/-- The total order. -/
protected def compare (x y : Double) : Ordering :=
  Ord.compare (Format.double.orderKey x.bits.toNat) (Format.double.orderKey y.bits.toNat)

/-- The number rounded to the narrower format. -/
def toSingle (x : Double) : Single :=
  if Format.double.isNaN x.bits.toNat then ⟨.ofNat (Format.double.convertedNaN .single x.bits.toNat)⟩
  else ⟨(Float.ofBits x.bits).toFloat32.toBits⟩

end Double

end QueryTemplate.Floating
