import QueryTemplate.Interpreter.Basic

/-!
# Plans

What an evaluation is going to do can be written down before it begins: single actions on the state, calls of closures,
and blocks, one after another, where what comes next depends on what has come out (`Plan`). To evaluate an expression or
to execute a statement is to run its plan (`run_exprPlan`, `run_stmtPlan`). How closures are called stays a parameter.
-/

namespace QueryTemplate

/-- What evaluation does to the state in one go. It comes to a value or fails. -/
inductive Action
  | yield (r : Except EvalFault Value)
  | lookup (name : String)
  | assign (name : String) (v : Value)
  | define (name : String) (v : Value)
  | print (v : Value)
  /-- Execute the declaration of a function. -/
  | function (d : FunctionDecl)
  /-- Execute the declaration of a mapper. -/
  | mapper (d : FunctionDecl)
  | importType (path localName : String)
  | construct (t : HostType) (arguments : List Value)
  | callMember (receiver : Value) (name : String) (arguments : List Value)
  | getMember (receiver : Value) (field : String)
  | setMember (receiver : Value) (field : String) (v : Value)

/-- Do it. What is done for its effect alone comes to null, and an assignment to the value. -/
def Action.run (types : Registry) : Action → EvalM Value
  | yield r => EvalM.ofExcept r
  | lookup name => EvalM.lookup name
  | assign name v => do
    EvalM.assign name v
    return v
  | define name v => do
    EvalM.define name v
    return .null
  | print v => do
    EvalM.print v
    return .null
  | function d => do
    let f ← EvalM.close d
    EvalM.define d.name.name (.function f)
    return .null
  | mapper d => do
    let f ← EvalM.close d
    EvalM.define d.name.name (.mapper f)
    return .null
  | importType path localName => do
    match types.find? path with
    | some t =>
      EvalM.define localName (.type t)
      return .null
    | none => EvalM.fail (.typeNotFound path)
  | construct t arguments => Member.construct types t arguments
  | callMember receiver name arguments => Member.call types receiver name arguments
  | getMember receiver field => Member.get types receiver field
  | setMember receiver field v => Member.set types receiver field v

/-- What an evaluation is going to do. -/
inductive Plan
  | done (o : Outcome)
  | act (a : Action)
  | call (f : Closure) (bindings : List (String × Value))
  /-- An error that has no place gets this one. -/
  | placed (p : Position) (x : Plan)
  /-- In a new scope inside the current one. -/
  | block (body : Plan)
  | seq (x : Plan) (next : Outcome → Plan)

namespace Plan

/-- Go on with the value. -/
def andThen (x : Plan) (next : Value → Plan) : Plan := .seq x fun o => next o.value

/-- Be done with a value. -/
def value (v : Value) : Plan := .done (.done v)

def fail (fault : EvalFault) : Plan := .act (.yield (.error fault))

/-- Do what is planned. -/
def run (types : Registry) (invoke : Invoke) : Plan → EvalM Outcome
  | done o => pure o
  | act a => do return .done (← a.run types)
  | call f bindings => do return .done (← invoke f bindings)
  | placed p x => EvalM.placed p (x.run types invoke)
  | block body => fun m => EvalM.within m.current [] (body.run types invoke) m
  | seq x next => do
    let o ← x.run types invoke
    (next o).run types invoke

end Plan

/-! ## Plans of trees -/

/-- Call a value. -/
def callPlan (callee : Value) (arguments : List Value) : Plan :=
  match callee with
  | .function f =>
    if arguments.length = f.arity then .call f ((f.declaration.parameters.map Ident.name).zip arguments)
    else .fail (.arityMismatch f.name f.arity arguments.length)
  | .mapper f => .fail (.mapperNotCallable f.name)
  | .type t => .act (.construct t arguments)
  | v => .fail (.notCallable v.typeName)

/-- Go on with a truth value. -/
def truthPlan (op : LogicalOp) (position : Position) (v : Value) (next : Bool → Plan) : Plan :=
  match v with
  | .bool b => next b
  | v => .placed position (.fail (.nonBooleanOperand (.logical op) v.typeName))

mutual

/-- What evaluating an expression does. -/
def Expr.plan : Expr → Plan
  | .literal l p => .placed p (.act (.yield l.value))
  | .binary op left right p => .placed p <| left.plan.andThen fun l => right.plan.andThen fun r =>
    .act (.yield (op.apply l r))
  | .logical op left right p => .placed p <| left.plan.andThen fun l => truthPlan op left.position l fun b =>
    if op.decided b then .value (.bool b)
    else right.plan.andThen fun r => truthPlan op right.position r fun c => .value (.bool c)
  | .unary op operand p => .placed p <| operand.plan.andThen fun v => .act (.yield (op.apply v))
  | .grouping inner p => .placed p inner.plan
  | .name i => .placed i.position (.act (.lookup i.name))
  | .assign target value => .placed target.position <| value.plan.andThen fun v => .act (.assign target.name v)
  | .call callee arguments p => .placed p <| callee.plan.andThen fun f => Expr.plans arguments fun vs => callPlan f vs
  | .callMethod receiver method arguments => .placed method.position <| receiver.plan.andThen fun r =>
    Expr.plans arguments fun vs => .act (.callMember r method.name vs)
  | .getField receiver field => .placed field.position <| receiver.plan.andThen fun r =>
    .act (.getMember r field.name)
  | .setField receiver field value => .placed field.position <| receiver.plan.andThen fun r =>
    value.plan.andThen fun v => .act (.setMember r field.name v)

/-- Evaluate arguments from left to right, and go on with their values. -/
def Expr.plans : List Expr → (List Value → Plan) → Plan
  | [], next => next []
  | e :: es, next => e.plan.andThen fun v => Expr.plans es fun vs => next (v :: vs)

end

/-- Go on with one branch or another, as the condition is. -/
def conditionPlan (position : Position) (v : Value) (thenBranch elseBranch : Plan) : Plan :=
  match v with
  | .bool true => thenBranch
  | .bool false => elseBranch
  | v => .placed position (.fail (.nonBooleanCondition v.typeName))

mutual

/-- What executing a statement does. -/
def Stmt.plan : Stmt → Plan
  | .expr e => e.plan
  | .define name value => value.plan.andThen fun v => .act (.define name.name v)
  | .print e => e.plan.andThen fun v => .act (.print v)
  | .ifThen condition thenBranch => condition.plan.andThen fun v =>
    conditionPlan condition.position v thenBranch.plan (.value .null)
  | .ifElse condition thenBranch elseBranch => condition.plan.andThen fun v =>
    conditionPlan condition.position v thenBranch.plan elseBranch.plan
  | .block body => .block (Stmt.plans .null body)
  | .function name parameters body => .act (.function ⟨name, parameters, body⟩)
  | .mapper name parameters body => .act (.mapper ⟨name, parameters, body⟩)
  | .ret none _ => .done (.returned .null)
  | .ret (some value) _ => value.plan.andThen fun v => .done (.returned v)
  | .importType path localName => .placed localName.position (.act (.importType path localName.name))

/-- Execute statements up to the first `return`. -/
def Stmt.plans (last : Value) : List Stmt → Plan
  | [] => .value last
  | s :: ss => .seq s.plan fun o =>
    match o with
    | .done v => Stmt.plans v ss
    | .returned v => .done (.returned v)

end

/-- What running the body of a closure does. -/
def Closure.plan (f : Closure) : Plan := Stmt.plans .null f.declaration.body

/-! ## Running plans of trees -/

namespace EvalM

/-- A computation that comes to a value, as one that comes to an outcome. -/
def outcome (x : EvalM Value) : EvalM Outcome := do return .done (← x)

theorem placed_outcome (p : Position) (x : EvalM Value) : placed p x.outcome = (placed p x).outcome := by
  funext m
  simp only [placed, outcome, bind, EStateM.bind, pure, EStateM.pure]
  cases x m <;> rfl

theorem outcome_bind {α : Type} (x : EvalM α) (f : α → EvalM Value) :
    (x >>= f).outcome = x >>= fun a => (f a).outcome := bind_assoc x f _

end EvalM

open EvalM

section

variable {types : Registry} {invoke : Invoke}

theorem Plan.run_andThen {x : Plan} {y : EvalM Value} (hx : x.run types invoke = y.outcome) (next : Value → Plan) :
    (x.andThen next).run types invoke = y >>= fun v => (next v).run types invoke := by
  rw [Plan.andThen, Plan.run, hx, outcome, bind_assoc]
  rfl

theorem run_callPlan (callee : Value) (arguments : List Value) :
    (callPlan callee arguments).run types invoke = (callValue types invoke callee arguments).outcome := by
  cases callee with
  | function f =>
    simp only [callPlan, callValue]
    split <;> rfl
  | _ => rfl

theorem run_truthPlan {op : LogicalOp} {position : Position} {v : Value} {next : Bool → Plan} {y : Bool → EvalM Value}
    (hnext : ∀ b, (next b).run types invoke = (y b).outcome) :
    (truthPlan op position v next).run types invoke = (truth op position v >>= y).outcome := by
  cases v with
  | bool b => exact hnext b
  | _ => rfl

mutual

/-- To evaluate an expression is to run its plan. -/
theorem run_exprPlan (e : Expr) : e.plan.run types invoke = (evalExpr types invoke e).outcome := by
  cases e with
  | literal l p =>
    rw [Expr.plan, evalExpr, Plan.run, ← placed_outcome]
    rfl
  | binary op left right p =>
    rw [Expr.plan, evalExpr, Plan.run, ← placed_outcome, outcome_bind, Plan.run_andThen (run_exprPlan left)]
    simp only [Plan.run_andThen (run_exprPlan right), outcome_bind]
    rfl
  | logical op left right p =>
    rw [Expr.plan, evalExpr, Plan.run, ← placed_outcome, outcome_bind, Plan.run_andThen (run_exprPlan left)]
    refine congrArg (placed p) (bind_congr fun l => run_truthPlan fun b => ?_)
    split
    · rfl
    · rw [Plan.run_andThen (run_exprPlan right), outcome_bind]
      exact bind_congr fun r => run_truthPlan fun c => rfl
  | unary op operand p =>
    rw [Expr.plan, evalExpr, Plan.run, ← placed_outcome, outcome_bind, Plan.run_andThen (run_exprPlan operand)]
    rfl
  | grouping inner p => rw [Expr.plan, evalExpr, Plan.run, ← placed_outcome, run_exprPlan inner]
  | name i =>
    rw [Expr.plan, evalExpr, Plan.run, ← placed_outcome]
    rfl
  | assign target value =>
    rw [Expr.plan, evalExpr, Plan.run, ← placed_outcome, outcome_bind, Plan.run_andThen (run_exprPlan value)]
    rfl
  | call callee arguments p =>
    rw [Expr.plan, evalExpr, Plan.run, ← placed_outcome, outcome_bind, Plan.run_andThen (run_exprPlan callee)]
    refine congrArg (placed p) (bind_congr fun f => ?_)
    rw [run_exprPlans arguments, outcome_bind]
    exact bind_congr fun vs => run_callPlan f vs
  | callMethod receiver method arguments =>
    rw [Expr.plan, evalExpr, Plan.run, ← placed_outcome, outcome_bind, Plan.run_andThen (run_exprPlan receiver)]
    refine congrArg (placed _) (bind_congr fun r => ?_)
    rw [run_exprPlans arguments, outcome_bind]
    rfl
  | getField receiver field =>
    rw [Expr.plan, evalExpr, Plan.run, ← placed_outcome, outcome_bind, Plan.run_andThen (run_exprPlan receiver)]
    rfl
  | setField receiver field value =>
    rw [Expr.plan, evalExpr, Plan.run, ← placed_outcome, outcome_bind, Plan.run_andThen (run_exprPlan receiver)]
    simp only [Plan.run_andThen (run_exprPlan value), outcome_bind]
    rfl

theorem run_exprPlans (es : List Expr) (next : List Value → Plan) :
    (Expr.plans es next).run types invoke = evalExprs types invoke es >>= fun vs => (next vs).run types invoke := by
  cases es with
  | nil => rw [Expr.plans, evalExprs, pure_bind]
  | cons e es =>
    rw [Expr.plans, evalExprs, Plan.run_andThen (run_exprPlan e), bind_assoc]
    refine bind_congr fun v => ?_
    rw [run_exprPlans es, bind_assoc]
    exact bind_congr fun vs => (pure_bind _ _).symm

end

theorem run_conditionPlan {position : Position} (v : Value) {thenBranch elseBranch : Plan} {x y : EvalM Outcome}
    (hx : thenBranch.run types invoke = x) (hy : elseBranch.run types invoke = y) :
    (conditionPlan position v thenBranch elseBranch).run types invoke =
      match v with
      | .bool true => x
      | .bool false => y
      | v => placed position (EvalM.fail (.nonBooleanCondition v.typeName)) := by
  rw [← hx, ← hy]
  cases v with
  | bool b => cases b <;> rfl
  | _ => rfl

mutual

/-- To execute a statement is to run its plan. -/
theorem run_stmtPlan (s : Stmt) : s.plan.run types invoke = execStmt types invoke s := by
  cases s with
  | expr e => rw [Stmt.plan, execStmt, run_exprPlan e, outcome]
  | define name value =>
    rw [Stmt.plan, execStmt, Plan.run_andThen (run_exprPlan value)]
    rfl
  | print e =>
    rw [Stmt.plan, execStmt, Plan.run_andThen (run_exprPlan e)]
    rfl
  | ifThen condition thenBranch =>
    rw [Stmt.plan, execStmt, Plan.run_andThen (run_exprPlan condition)]
    exact bind_congr fun v => run_conditionPlan v (run_stmtPlan thenBranch) rfl
  | ifElse condition thenBranch elseBranch =>
    rw [Stmt.plan, execStmt, Plan.run_andThen (run_exprPlan condition)]
    exact bind_congr fun v => run_conditionPlan v (run_stmtPlan thenBranch) (run_stmtPlan elseBranch)
  | block body => rw [Stmt.plan, execStmt, Plan.run, run_stmtPlans .null body]
  | function name parameters body =>
    rw [Stmt.plan, execStmt]
    rfl
  | mapper name parameters body =>
    rw [Stmt.plan, execStmt]
    rfl
  | ret value p =>
    cases value with
    | none =>
      rw [Stmt.plan, execStmt]
      rfl
    | some value =>
      rw [Stmt.plan, execStmt, Plan.run_andThen (run_exprPlan value)]
      rfl
  | importType path localName =>
    rw [Stmt.plan, execStmt, Plan.run]
    cases h : types.find? path <;> simp [Plan.run, Action.run, h] <;> rfl

theorem run_stmtPlans (last : Value) (ss : List Stmt) :
    (Stmt.plans last ss).run types invoke = execBody types invoke last ss := by
  cases ss with
  | nil =>
    rw [Stmt.plans, execBody]
    rfl
  | cons s ss =>
    rw [Stmt.plans, execBody, Plan.run, run_stmtPlan s]
    refine bind_congr fun o => ?_
    cases o with
    | done v => exact run_stmtPlans v ss
    | returned v => rfl

end

end

end QueryTemplate
