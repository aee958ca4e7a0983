import QueryTemplate.Interpreter.Member
import QueryTemplate.Value.Operator

/-!
# Evaluation

Expressions and statements are evaluated by recursion on the tree. How a function is called is a parameter of that
recursion; a call runs a body with room for one call less (`callWithin`). So evaluation comes to an end for every
template, and no limit is needed but that on the depth of calls.
-/

namespace QueryTemplate

/-- What a statement comes to. -/
inductive Outcome
  /-- It is done, with a value. -/
  | done (v : Value)
  /-- A `return` ends the function around it, or the template. -/
  | returned (v : Value)

namespace Outcome

def value : Outcome → Value
  | done v => v
  | returned v => v

end Outcome

/-- How a closure is run with its parameters bound. -/
abbrev Invoke := Closure → List (String × Value) → EvalM Value

/-- The value of a literal: an integer takes the narrowest of the three kinds of integer. -/
def Literal.value : Literal → Except EvalFault Value
  | null => .ok .null
  | bool b => .ok (.bool b)
  | int n =>
    if fitsInto 32 n.toInt then .ok (.int (Int32.ofInt n.toInt)) else .ok (.long n)
  | bigInt digits =>
    match readInteger? digits.toList with
    | some n => .ok (.bigInt n)
    | none => .error (.numericConversion digits .bigInt)
  | float x => .ok (.double (.ofFloat x))
  | string s => .ok (.string s)

/-- Call a value: a function with as many arguments as it has parameters, or a type to make an object. -/
def callValue (types : Registry) (invoke : Invoke) (callee : Value) (arguments : List Value) : EvalM Value :=
  match callee with
  | .function f =>
    if arguments.length = f.arity then invoke f ((f.declaration.parameters.map Ident.name).zip arguments)
    else EvalM.fail (.arityMismatch f.name f.arity arguments.length)
  | .mapper f => EvalM.fail (.mapperNotCallable f.name)
  | .type t => Member.construct types t arguments
  | v => EvalM.fail (.notCallable v.typeName)

/-- A truth value, or a fault of a logical operator at its operand. -/
def truth (op : LogicalOp) (position : Position) (v : Value) : EvalM Bool :=
  match v with
  | .bool b => pure b
  | v => EvalM.placed position (EvalM.fail (.nonBooleanOperand (.logical op) v.typeName))

/-- Whether the left operand decides a logical operator. -/
def LogicalOp.decided (op : LogicalOp) (left : Bool) : Bool :=
  match op with
  | and => !left
  | or => left

section

variable (types : Registry) (invoke : Invoke)

mutual

/-- The value of an expression. An error that has no place gets that of the expression. -/
def evalExpr : Expr → EvalM Value
  | .literal l p => EvalM.placed p (EvalM.ofExcept l.value)
  | .binary op left right p => EvalM.placed p do
    let l ← evalExpr left
    let r ← evalExpr right
    EvalM.ofExcept (op.apply l r)
  | .logical op left right p => EvalM.placed p do
    let l ← truth op left.position (← evalExpr left)
    if op.decided l then return .bool l
    return .bool (← truth op right.position (← evalExpr right))
  | .unary op operand p => EvalM.placed p do
    let v ← evalExpr operand
    EvalM.ofExcept (op.apply v)
  | .grouping inner p => EvalM.placed p (evalExpr inner)
  | .name i => EvalM.placed i.position (EvalM.lookup i.name)
  | .assign target value => EvalM.placed target.position do
    let v ← evalExpr value
    EvalM.assign target.name v
    return v
  | .call callee arguments p => EvalM.placed p do
    let f ← evalExpr callee
    let vs ← evalExprs arguments
    callValue types invoke f vs
  | .callMethod receiver method arguments => EvalM.placed method.position do
    let r ← evalExpr receiver
    let vs ← evalExprs arguments
    Member.call types r method.name vs
  | .getField receiver field => EvalM.placed field.position do
    let r ← evalExpr receiver
    Member.get types r field.name
  | .setField receiver field value => EvalM.placed field.position do
    let r ← evalExpr receiver
    let v ← evalExpr value
    Member.set types r field.name v

/-- The values of arguments, from left to right. -/
def evalExprs : List Expr → EvalM (List Value)
  | [] => pure []
  | e :: es => do
    let v ← evalExpr e
    let vs ← evalExprs es
    return v :: vs

end

/-- Bind a new closure of a declaration to its name. -/
def declare (make : Closure → Value) (declaration : FunctionDecl) : EvalM Outcome := do
  let f ← EvalM.close declaration
  EvalM.define declaration.name.name (make f)
  return .done .null

mutual

/-- Execute a statement in the current scope. -/
def execStmt : Stmt → EvalM Outcome
  | .expr e => do return .done (← evalExpr types invoke e)
  | .define name value => do
    let v ← evalExpr types invoke value
    EvalM.define name.name v
    return .done .null
  | .print e => do
    let v ← evalExpr types invoke e
    EvalM.print v
    return .done .null
  | .ifThen condition thenBranch => do
    match ← evalExpr types invoke condition with
    | .bool true => execStmt thenBranch
    | .bool false => return .done .null
    | v => EvalM.placed condition.position (EvalM.fail (.nonBooleanCondition v.typeName))
  | .ifElse condition thenBranch elseBranch => do
    match ← evalExpr types invoke condition with
    | .bool true => execStmt thenBranch
    | .bool false => execStmt elseBranch
    | v => EvalM.placed condition.position (EvalM.fail (.nonBooleanCondition v.typeName))
  | .block body => fun m => EvalM.within m.current [] (execBody .null body) m
  | .function name parameters body => declare .function ⟨name, parameters, body⟩
  | .mapper name parameters body => declare .mapper ⟨name, parameters, body⟩
  | .ret none _ => return .returned .null
  | .ret (some value) _ => do return .returned (← evalExpr types invoke value)
  | .importType path localName => do
    match types.find? path with
    | some t =>
      EvalM.define localName.name (.type t)
      return .done .null
    | none => EvalM.placed localName.position (EvalM.fail (.typeNotFound path))

/-- Execute statements in the current scope up to the first `return`. The outcome is that of the last statement; of none
it is `last`. -/
def execBody (last : Value) : List Stmt → EvalM Outcome
  | [] => return .done last
  | s :: ss => do
    match ← execStmt s with
    | .done v => execBody v ss
    | .returned v => return .returned v

end

end

/-- Run a closure: its body runs in a new scope inside the one of its declaration, which must still be live, and no more
than `limit` calls are nested. There is `room` for so many calls inside one another; as much as the limit is enough. -/
def callWithin (types : Registry) (limit : Nat) : (room : Nat) → Invoke
  | 0 => fun f _ => do
    if ← EvalM.isLive f.scope then EvalM.fail (.callDepthExceeded limit)
    else EvalM.fail (.scopeExpired f.name)
  | room + 1 => fun f bindings => do
    if ← EvalM.isLive f.scope then
      if limit ≤ (← EvalM.callDepth) then EvalM.fail (.callDepthExceeded limit)
      else
        let body := execBody types (callWithin types limit room) .null f.declaration.body
        let outcome ← EvalM.called (EvalM.within f.scope bindings body)
        return outcome.value
    else EvalM.fail (.scopeExpired f.name)

end QueryTemplate
