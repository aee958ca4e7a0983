import QueryTemplate.Value.Arithmetic

/-!
# Operators on values

Two numbers are worked with in their common kind. Text is joined, repeated and ordered, and truth values are ordered.
No other operands have an operation, except that any two values can be compared for equality.
-/

namespace QueryTemplate

namespace Value

/-- Equality in the language: numbers are equal if their values are in their common kind, other values if they are
the same. -/
def equal (left right : Value) : Bool :=
  match left.kind?, right.kind? with
  | some a, some b =>
    match (NumericKind.promote a b).apply .eq left right with
    | .ok (.bool true) => true
    | _ => false
  | _, _ => left.same right

/-- The number of bytes that no text exceeds. -/
def textCapacity : Nat := Nat.pow 2 63 - 1

/-- `count` copies of a text, if these are no more than a text can hold. -/
def repeated? (s : String) (count : Nat) : Option String :=
  if s.isEmpty then some ""
  else if s.utf8ByteSize * count ≤ textCapacity then some (String.join (List.replicate count s))
  else none

/-- A text as many times as an integer says, which has to be a count. -/
def repeatText (s : String) (count : Int) (otherwise : EvalFault) : Except EvalFault Value :=
  if 0 ≤ count then
    match repeated? s count.toNat with
    | some text => .ok (.string text)
    | none => .error (.panic .capacityOverflow)
  else .error otherwise

end Value

namespace BinaryOp

/-- Whether the operator is one of the four that order. -/
def isOrdering : BinaryOp → Bool
  | lt | le | gt | ge => true
  | _ => false

/-- A fault that names the operator and the types of its operands. -/
def unsupported (op : BinaryOp) (left right : Value) : EvalFault :=
  .unsupportedOperands op left.typeName right.typeName

/-- The result of an operator on operands that are not both numbers, and that neither `==` nor joining takes. -/
def applyOther (op : BinaryOp) (left right : Value) : Except EvalFault Value :=
  match op, left, right with
  | .mul, .string s, .number (.int n) => Value.repeatText s n.toInt (op.unsupported left right)
  | .mul, .string s, .number (.long n) => Value.repeatText s n.toInt (op.unsupported left right)
  | _, .string a, .string b =>
    if op.isOrdering then .ok (.bool (op.holds (compare a b))) else .error (op.unsupported left right)
  | _, .bool a, .bool b =>
    if op.isOrdering then .ok (.bool (op.holds (compare a b))) else .error (op.unsupported left right)
  | _, _, _ => .error (op.unsupported left right)

/-- The result of an operator on operands that `==` does not take. -/
def applyUnequal (op : BinaryOp) (left right : Value) : Except EvalFault Value :=
  if op = .add ∧ (left.string?.isSome ∨ right.string?.isSome) then .ok (.string (left.display ++ right.display))
  else
    match left.kind?, right.kind? with
    | some a, some b => (NumericKind.promote a b).apply op left right
    | _, _ => op.applyOther left right

/-- The result of an operator. -/
def apply (op : BinaryOp) (left right : Value) : Except EvalFault Value :=
  match op with
  | .eq => .ok (.bool (left.equal right))
  | .ne => .ok (.bool (!left.equal right))
  | op => op.applyUnequal left right

end BinaryOp

namespace UnaryOp

/-- The result of an operator before its operand. -/
def apply (op : UnaryOp) (v : Value) : Except EvalFault Value :=
  match op with
  | .neg =>
    match v.kind? with
    | some kind => kind.negate v
    | none => .error (.unsupportedOperand .neg v.typeName)
  | .not =>
    match v with
    | .bool b => .ok (.bool (!b))
    | v => .error (.nonBooleanOperand .not v.typeName)

end UnaryOp

end QueryTemplate
