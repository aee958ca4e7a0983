import QueryTemplate.Tree.Parsed
import QueryTemplate.Tree.Precedence

/-!
# Reading expressions

An expression is a chain of operands and operators, read by precedence climbing: `parseOperation level` takes
operators that bind at least as tightly as `level`, and the right operand of an operator takes those that bind more
tightly than it. An assignment is looser than all operators. The value of a field write is a whole expression, as
tightly as the write itself binds on its left.
-/

namespace QueryTemplate

/-- The literal that a token stands for. -/
def Token.literal? (t : Token) : Option Literal :=
  match t.kind, t.payload with
  | .falseWord, _ => some (.bool false)
  | .trueWord, _ => some (.bool true)
  | .nullWord, _ => some .null
  | .string, _ => some (.string t.text)
  | .number, .integer n => some (.int n)
  | .number, .bigInteger digits => some (.bigInt digits)
  | .number, .decimal x => some (.float x)
  | _, _ => none

theorem Token.kind_ne_endOfInput_of_literal? {t : Token} {l : Literal} (h : t.literal? = some l) :
    t.kind ≠ .endOfInput := by
  intro hk
  simp [literal?, hk] at h

theorem UnaryOp.remaining_advance_lt {c : Cursor} {op : UnaryOp} (h : ofKind? c.kind = some op) :
    c.advance.remaining < c.remaining :=
  Cursor.remaining_advance_lt (by rw [← ofKind?_eq_some_iff.1 h]; cases op <;> decide)

open Cursor

mutual

/-- An expression: an operation, or an assignment to a name. -/
def parseExpr (c : Cursor) : Parsed Expr c.remaining :=
  (parseOperation 1 c).andThen fun target d hd =>
    if d.kind = .equal then
      have := d.remaining_advance_le
      (parseExpr d.advance).andThen fun value e he =>
        match target with
        | .name target => .ok (.assign target value) e (by omega)
        | _ => .error ⟨.invalidAssignmentTarget, d.current.position⟩
    else .ok target d hd
termination_by (c.remaining, 5)

/-- Operands and the operators between them that bind at least as tightly as `level`. -/
def parseOperation (level : Nat) (c : Cursor) : Parsed Expr c.remaining :=
  (parseOperand c).andThen fun left d hd => parseOperatorsFrom level left d hd
termination_by (c.remaining, 3)

/-- The operators that follow the operand `left`, with their right operands. -/
def parseOperatorsFrom {n : Nat} (level : Nat) (left : Expr) (c : Cursor) (hc : c.remaining < n) : Parsed Expr n :=
  match Operator.ofKind? c.kind with
  | some op =>
    if level ≤ op.level then
      have := c.remaining_advance_le
      (parseOperation (op.level + 1) c.advance).andThen fun right d hd =>
        parseOperatorsFrom level (op.node left right c.current.position) d (by omega)
    else .ok left c hc
  | none => .ok left c hc
termination_by (c.remaining, 4)
decreasing_by all_goals first | decreasing_tactic | exact Prod.Lex.right' _ this (by decide)

/-- An operand: any number of operators before a primary expression with its calls and members. -/
def parseOperand (c : Cursor) : Parsed Expr c.remaining :=
  match h : UnaryOp.ofKind? c.kind with
  | some op =>
    have := UnaryOp.remaining_advance_lt h
    (parseOperand c.advance).map (.unary op · c.current.position) (by omega)
  | none => (parsePrimary c).andThen fun e d hd => parseCallsFrom e d hd
termination_by (c.remaining, 2)

/-- The calls and members that follow the expression `e`. -/
def parseCallsFrom {n : Nat} (e : Expr) (c : Cursor) (hc : c.remaining < n) : Parsed Expr n :=
  have := c.remaining_advance_le
  match c.kind with
  | .leftParen =>
    (parseArguments c.advance).andThen fun arguments d hd =>
      parseCallsFrom (.call e arguments c.current.position) d (by omega)
  | .dot =>
    (c.advance.expectName .propertyName).andThen fun member d hd =>
      have := d.remaining_advance_le
      match d.kind with
      | .leftParen =>
        (parseArguments d.advance).andThen fun arguments d' hd' =>
          parseCallsFrom (.callMethod e member arguments) d' (by omega)
      | .equal =>
        (parseExpr d.advance).andThen fun value d' hd' => parseCallsFrom (.setField e member value) d' (by omega)
      | _ => parseCallsFrom (.getField e member) d (by omega)
  | _ => .ok e c hc
termination_by (c.remaining, 8)
decreasing_by all_goals first | decreasing_tactic | exact Prod.Lex.right' _ this (by decide)

/-- Arguments up to and with the closing parenthesis. -/
def parseArguments (c : Cursor) : Parsed (List Expr) c.remaining :=
  if h : c.kind = .rightParen then .ok [] c.advance (remaining_advance_lt_of_rightParen h)
  else parseArgumentList c
termination_by (c.remaining, 7)

/-- One or more arguments up to and with the closing parenthesis. -/
def parseArgumentList (c : Cursor) : Parsed (List Expr) c.remaining :=
  (parseExpr c).andThen fun e d hd =>
    if d.kind = .comma then
      have := d.remaining_advance_le
      (parseArgumentList d.advance).map (e :: ·) (remaining_advance_le_trans hd)
    else (d.expect .closeArguments).map (fun _ => [e]) (remaining_le_of_lt hd)
termination_by (c.remaining, 6)

/-- A literal, a name or an expression in parentheses. -/
def parsePrimary (c : Cursor) : Parsed Expr c.remaining :=
  match h : c.current.literal? with
  | some l =>
    .ok (.literal l c.current.position) c.advance (remaining_advance_lt (Token.kind_ne_endOfInput_of_literal? h))
  | none =>
    if h : c.kind = .identifier then
      .ok (.name c.ident) c.advance (remaining_advance_lt_of_identifier h)
    else if h : c.kind = .leftParen then
      have := remaining_advance_lt_of_leftParen h
      (parseExpr c.advance).andThen fun inner d hd =>
        (d.expect .closeGroup).map (fun _ => .grouping inner c.current.position) (by omega)
    else .error (c.fault (.expectedExpression c.kind))
termination_by (c.remaining, 1)

end

end QueryTemplate
