import QueryTemplate.EvalError

/-!
# Arithmetic by kind

Each kind of number has an arithmetic of its own: the numbers that can be converted to it, its operations with their
faults, and its order. Integers of a fixed width are exact or overflow; decimals take floating-point numbers by their
shortest text.
-/

namespace QueryTemplate

/-- The operations on the numbers of one kind, represented as values of a type. -/
structure Arithmetic (α : Type) where
  kind : NumericKind
  convert? : Number → Option α
  wrap : α → Number
  add : α → α → Except EvalFault α
  sub : α → α → Except EvalFault α
  mul : α → α → Except EvalFault α
  div : α → α → Except EvalFault α
  neg : α → Except EvalFault α
  compare : α → α → Ordering

/-- Whether a comparison operator holds of operands in the given order. -/
def BinaryOp.holds (op : BinaryOp) (order : Ordering) : Bool :=
  match op with
  | eq => order == .eq
  | ne => order != .eq
  | lt => order == .lt
  | le => order != .gt
  | gt => order == .gt
  | ge => order != .lt
  | add | sub | mul | div => false

namespace Arithmetic

/-- The integers of `bits` bits, with a sign. -/
def ofWidth {α : Type} (kind : NumericKind) (bits : Nat) (convert? : Number → Option α) (wrap : α → Number)
    (toInt : α → Int) (ofInt : Int → α) : Arithmetic α :=
  let checked (computation : Computation) (n : Int) : Except EvalFault α :=
    if fitsInto bits n then .ok (ofInt n) else .error (.integerOverflow computation)
  { kind, convert?, wrap
    add := fun a b => checked .addition (toInt a + toInt b)
    sub := fun a b => checked .subtraction (toInt a - toInt b)
    mul := fun a b => checked .multiplication (toInt a * toInt b)
    div := fun a b =>
      if toInt b = 0 then .error .divisionByZero else checked .division ((toInt a).tdiv (toInt b))
    neg := fun a => checked .negation (-toInt a)
    compare := fun a b => Ord.compare (toInt a) (toInt b) }

/-- Integers of 32 bits. -/
def int : Arithmetic Int32 :=
  let convert? : Number → Option Int32
    | .int n => some n
    | _ => none
  ofWidth .int 32 convert? .int Int32.toInt Int32.ofInt

/-- Integers of 64 bits. -/
def long : Arithmetic Int64 :=
  let convert? : Number → Option Int64
    | .int n => some n.toInt64
    | .long n => some n
    | _ => none
  ofWidth .long 64 convert? .long Int64.toInt Int64.ofInt

/-- Floating-point numbers of 32 bits. -/
def float : Arithmetic Floating.Single where
  kind := .float
  convert?
    | .int n => some (.ofFloat32 n.toFloat32)
    | .long n => some (.ofFloat32 n.toFloat32)
    | .float x => some x
    | _ => none
  wrap := .float
  add x y := .ok (x + y)
  sub x y := .ok (x - y)
  mul x y := .ok (x * y)
  div x y := .ok (x / y)
  neg x := .ok (-x)
  compare := Floating.Single.compare

/-- Floating-point numbers of 64 bits. -/
def double : Arithmetic Floating.Double where
  kind := .double
  convert?
    | .int n => some (.ofFloat n.toFloat)
    | .long n => some (.ofFloat n.toFloat)
    | .float x => some x.toDouble
    | .double x => some x
    | _ => none
  wrap := .double
  add x y := .ok (x + y)
  sub x y := .ok (x - y)
  mul x y := .ok (x * y)
  div x y := .ok (x / y)
  neg x := .ok (-x)
  compare := Floating.Double.compare

/-- Integers without bounds. Division truncates. -/
def bigInt : Arithmetic Int where
  kind := .bigInt
  convert?
    | .int n => some n.toInt
    | .long n => some n.toInt
    | .bigInt n => some n
    | _ => none
  wrap := .bigInt
  add a b := .ok (a + b)
  sub a b := .ok (a - b)
  mul a b := .ok (a * b)
  div a b := if b = 0 then .error .divisionByZero else .ok (a.tdiv b)
  neg a := .ok (-a)
  compare a b := Ord.compare a b

/-- The result of an arithmetic on decimals, which panics where it has none. -/
def ofScale (d : Option Decimal) : Except EvalFault Decimal :=
  match d with
  | some d => .ok d
  | none => .error (.panic .scaleOverflow)

/-- Decimals. -/
def decimal : Arithmetic Decimal where
  kind := .decimal
  convert?
    | .int n => some (.ofInt n.toInt)
    | .long n => some (.ofInt n.toInt)
    | .float x => Decimal.ofString? (Number.float x).display
    | .double x => Decimal.ofString? (Number.double x).display
    | .bigInt n => some (.ofInt n)
    | .decimal d => some d
  wrap := .decimal
  add a b := ofScale (a.add? b)
  sub a b := ofScale (a.sub? b)
  mul a b := ofScale (a.mul? b)
  div a b := if b.isZero then .error .divisionByZero else ofScale (a.div? b)
  neg a := .ok (-a)
  compare := Decimal.compare

variable {α : Type}

/-- A value as a number of the kind. -/
def convert (A : Arithmetic α) (v : Value) : Except EvalFault α :=
  match v.number?.bind A.convert? with
  | some a => .ok a
  | none => .error (.numericConversion v.display A.kind)

/-- The result of an operator on numbers of the kind. -/
def operate (A : Arithmetic α) (op : BinaryOp) (a b : α) : Except EvalFault Value :=
  match op with
  | .add => (A.add a b).map (.number ∘ A.wrap)
  | .sub => (A.sub a b).map (.number ∘ A.wrap)
  | .mul => (A.mul a b).map (.number ∘ A.wrap)
  | .div => (A.div a b).map (.number ∘ A.wrap)
  | op => .ok (.bool (op.holds (A.compare a b)))

/-- The result of an operator on values that are converted to the kind, the left one first. -/
def apply (A : Arithmetic α) (op : BinaryOp) (left right : Value) : Except EvalFault Value := do
  A.operate op (← A.convert left) (← A.convert right)

/-- The negative of a value that is converted to the kind. -/
def negate (A : Arithmetic α) (v : Value) : Except EvalFault Value := do
  return .number (A.wrap (← A.neg (← A.convert v)))

end Arithmetic

namespace NumericKind

/-- The result of an operator on values that are converted to a kind. -/
def apply (kind : NumericKind) (op : BinaryOp) (left right : Value) : Except EvalFault Value :=
  match kind with
  | int => Arithmetic.int.apply op left right
  | long => Arithmetic.long.apply op left right
  | float => Arithmetic.float.apply op left right
  | double => Arithmetic.double.apply op left right
  | bigInt => Arithmetic.bigInt.apply op left right
  | decimal => Arithmetic.decimal.apply op left right

/-- The negative of a value that is converted to a kind. -/
def negate (kind : NumericKind) (v : Value) : Except EvalFault Value :=
  match kind with
  | int => Arithmetic.int.negate v
  | long => Arithmetic.long.negate v
  | float => Arithmetic.float.negate v
  | double => Arithmetic.double.negate v
  | bigInt => Arithmetic.bigInt.negate v
  | decimal => Arithmetic.decimal.negate v

end NumericKind

end QueryTemplate
