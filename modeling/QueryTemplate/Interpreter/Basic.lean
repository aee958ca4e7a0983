import QueryTemplate.Interpreter.Evaluation
import QueryTemplate.Row

/-!
# The interpreter

An interpreter keeps what templates have defined, made and printed, so that one template can use what an earlier one
left. Every operation yields a result and the interpreter after it, also when the result is an error.
-/

namespace QueryTemplate

/-- An interpreter. -/
structure Interpreter where
  /-- The types that templates can import. -/
  types : Registry
  /-- How deep calls may be nested. -/
  callLimit : Nat
  machine : Machine

namespace Interpreter

/-- The limit on nested calls where none is given. -/
def defaultCallLimit : Nat := 1024

/-- An interpreter that has run nothing yet. -/
def fresh (types : Registry) (callLimit : Nat) (heap : Heap) (output : Output) : Interpreter :=
  ⟨types, callLimit, ⟨.initial, ScopeStore.global, 0, heap, output, 0⟩⟩

/-- The interpreter, to go on from a number of declarations that have been executed before it. -/
def numberedFrom (i : Interpreter) (declarations : Nat) : Interpreter :=
  { i with machine := { i.machine with declarations } }

/-- How a closure is run. -/
def invoke (i : Interpreter) : Invoke := callWithin i.types i.callLimit i.callLimit

/-- Do something with the state. -/
def run {α : Type} (i : Interpreter) (x : EvalM α) : Except EvalError α × Interpreter :=
  match x i.machine with
  | .ok a machine => (.ok a, { i with machine })
  | .error e machine => (.error e, { i with machine })

/-- Execute a template. Its value is that of its last statement or of the `return` that ends it. -/
def execute (i : Interpreter) (program : Program) : Except EvalError Value × Interpreter :=
  i.run do return (← execBody i.types i.invoke .null program).value

/-- Evaluate an expression. -/
def evaluate (i : Interpreter) (e : Expr) : Except EvalError Value × Interpreter :=
  i.run (evalExpr i.types i.invoke e)

/-- Call a function or a host type. -/
def call (i : Interpreter) (callee : Value) (arguments : List Value) : Except EvalError Value × Interpreter :=
  i.run (callValue i.types i.invoke callee arguments)

/-- The parameters of a mapper bound to the columns of their names. -/
def keyBindings (row : Row) : List Ident → Except EvalError (List (String × Value))
  | [] => .ok []
  | p :: ps =>
    match row.findColumn? p.name with
    | some c => (keyBindings row ps).map ((p.name, c.value) :: ·)
    | none => .error ⟨.missingColumn p.name, p.position⟩

/-- Apply a mapper to a row. Its body sees all columns by reference, and each parameter is the column of its name. -/
def mapRow (i : Interpreter) (mapper : Value) (row : Row) : Except EvalError Value × Interpreter :=
  i.run <|
    match mapper with
    | .mapper f =>
      match keyBindings row f.declaration.parameters with
      | .ok keys => i.invoke f (row.bindings ++ keys)
      | .error e => throw e
    | .function f => EvalM.fail (.mapperNotCallable f.name)
    | v => EvalM.fail (.notCallable v.typeName)

/-- Apply a mapper to rows, up to the first error. -/
def mapRows (i : Interpreter) (mapper : Value) : List Row → Except EvalError (List Value) × Interpreter
  | [] => (.ok [], i)
  | row :: rows =>
    match i.mapRow mapper row with
    | (.error e, i) => (.error e, i)
    | (.ok v, i) =>
      let (vs, i) := i.mapRows mapper rows
      (vs.map (v :: ·), i)

/-- Bind a name. -/
def define (i : Interpreter) (name : String) (value : Value) : Interpreter :=
  (i.run (EvalM.define name value)).2

/-- Bind names in order. -/
def defineAll (i : Interpreter) (entries : List (String × Value)) : Interpreter :=
  entries.foldl (fun i (name, value) => i.define name value) i

/-- The value of a name. -/
def lookup (i : Interpreter) (name : String) : Except EvalError Value :=
  (i.run (EvalM.lookup name)).1

/-- The number of live scopes. -/
def liveScopes (i : Interpreter) : Nat := i.machine.scopes.liveCount

/-- Enter a new scope inside another one, with names bound in it. -/
def enter (i : Interpreter) (parent : ScopeId) (bindings : List (String × Value)) : Interpreter :=
  { i with machine := i.machine.enter parent bindings }

/-- Leave the current scope for another one. It is released. -/
def leave (i : Interpreter) (previous : ScopeId) : Interpreter :=
  { i with machine := i.machine.leave previous }

/-- What has been printed since the last clearing. -/
def printed (i : Interpreter) : String := i.machine.output.text

/-- Forget what has been printed. -/
def clearPrinted (i : Interpreter) : Interpreter :=
  { i with machine := { i.machine with output := i.machine.output.clear } }

end Interpreter

end QueryTemplate
