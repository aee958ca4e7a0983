import QueryTemplate.Tree.Basic
import QueryTemplate.Token.Basic

/-!
# Operators and how tightly they bind

The operators between two operands, from the loosest to the tightest: `||`, `&&`, equality, comparison, sums,
products. All of them associate to the left.
-/

namespace QueryTemplate

/-- An operator between two operands. -/
inductive Operator
  | logical (op : LogicalOp)
  | binary (op : BinaryOp)
deriving DecidableEq, Repr

namespace Operator

/-- How tightly an operator binds; more is tighter. -/
def level : Operator → Nat
  | logical .or => 1
  | logical .and => 2
  | binary .eq | binary .ne => 3
  | binary .lt | binary .le | binary .gt | binary .ge => 4
  | binary .add | binary .sub => 5
  | binary .mul | binary .div => 6

/-- The token of an operator. -/
def kind : Operator → TokenKind
  | logical .or => .or
  | logical .and => .and
  | binary .eq => .equalEqual
  | binary .ne => .bangEqual
  | binary .lt => .less
  | binary .le => .lessEqual
  | binary .gt => .greater
  | binary .ge => .greaterEqual
  | binary .add => .plus
  | binary .sub => .minus
  | binary .mul => .star
  | binary .div => .slash

/-- The operator of a token. -/
def ofKind? : TokenKind → Option Operator
  | .or => some (logical .or)
  | .and => some (logical .and)
  | .equalEqual => some (binary .eq)
  | .bangEqual => some (binary .ne)
  | .less => some (binary .lt)
  | .lessEqual => some (binary .le)
  | .greater => some (binary .gt)
  | .greaterEqual => some (binary .ge)
  | .plus => some (binary .add)
  | .minus => some (binary .sub)
  | .star => some (binary .mul)
  | .slash => some (binary .div)
  | _ => none

/-- An operation. -/
def node (op : Operator) (left right : Expr) (position : Position) : Expr :=
  match op with
  | logical op => .logical op left right position
  | binary op => .binary op left right position

theorem ofKind?_eq_some_iff {k : TokenKind} {op : Operator} : ofKind? k = some op ↔ op.kind = k := by
  constructor
  · intro h
    unfold ofKind? at h
    split at h <;> cases h <;> rfl
  · rintro rfl
    cases op with
    | logical op => cases op <;> rfl
    | binary op => cases op <;> rfl

end Operator

namespace UnaryOp

/-- The token of an operator before its operand. -/
def kind : UnaryOp → TokenKind
  | neg => .minus
  | not => .bang

/-- The operator of a token at the start of an operand. -/
def ofKind? : TokenKind → Option UnaryOp
  | .minus => some neg
  | .bang => some not
  | _ => none

theorem ofKind?_eq_some_iff {k : TokenKind} {op : UnaryOp} : ofKind? k = some op ↔ op.kind = k := by
  constructor
  · intro h
    unfold ofKind? at h
    split at h <;> cases h <;> rfl
  · rintro rfl
    cases op <;> rfl

end UnaryOp

end QueryTemplate
