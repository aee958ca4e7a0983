import QueryTemplate.EvalError
import QueryTemplate.Host.Registry

/-!
# The state of evaluation

Evaluation works on the scopes, on the host objects and on what has been printed, in a current scope and at a depth of
calls. What it did stays done when it ends with an error.
-/

namespace QueryTemplate

/-- Where printed lines go. -/
inductive Output
  /-- Nowhere. -/
  | silent
  /-- To a text, which holds what has been printed so far. -/
  | buffer (text : String)

namespace Output

/-- Print a line. -/
def line (o : Output) (s : String) : Output :=
  match o with
  | silent => silent
  | buffer text => buffer (text ++ s ++ "\n")

/-- What has been printed since the last clearing. -/
def text : Output → String
  | silent => ""
  | buffer text => text

/-- Forget what has been printed. -/
def clear : Output → Output
  | silent => silent
  | buffer _ => buffer ""

end Output

/-- The state of evaluation. -/
structure Machine where
  scopes : ScopeStore Value
  /-- The scope that is worked in. -/
  current : ScopeId
  /-- The number of calls that have begun and not ended. -/
  callDepth : Nat
  heap : Heap
  output : Output
  /-- The number of function and mapper declarations executed so far, here and in all runs before. -/
  declarations : Nat

namespace Machine

/-- Enter a new scope inside another one, with names bound in it. -/
def enter (m : Machine) (parent : ScopeId) (bindings : List (String × Value)) : Machine :=
  let (scope, scopes) := m.scopes.push parent
  { m with scopes := scopes.defineAll scope bindings, current := scope }

/-- Leave the current scope for another one. It is released. -/
def leave (m : Machine) (previous : ScopeId) : Machine :=
  { m with scopes := m.scopes.release m.current, current := previous }

end Machine

/-- A computation on the state, which may end with an error. -/
abbrev EvalM := EStateM EvalError Machine

namespace EvalM

/-- Fail with a fault that has no place yet. -/
def fail {α : Type} (fault : EvalFault) : EvalM α := throw (.ofFault fault)

/-- A result that may be a fault. -/
def ofExcept {α : Type} : Except EvalFault α → EvalM α
  | .ok a => pure a
  | .error fault => fail fault

/-- Give an error that has no place the one given here. -/
def placed {α : Type} (position : Position) (x : EvalM α) : EvalM α := fun m =>
  match x m with
  | .ok a m => .ok a m
  | .error e m => .error (e.placed position) m

/-- Work on the host objects. A failure is that of the named member. -/
def host {α : Type} (member : String) (x : HostM α) : EvalM α := fun m =>
  match x m.heap with
  | .ok a heap => .ok a { m with heap }
  | .error message heap => .error (.ofFault (.hostFailure member message)) { m with heap }

/-- The value of a name, from the current scope outward. -/
def lookup (name : String) : EvalM Value := fun m =>
  match m.scopes.lookup m.current name with
  | some v => .ok v m
  | none => .error (.ofFault (.undefinedVariable name)) m

/-- Bind a name in the current scope. -/
def define (name : String) (value : Value) : EvalM Unit := fun m =>
  .ok () { m with scopes := m.scopes.define m.current name value }

/-- Give a bound name a new value. -/
def assign (name : String) (value : Value) : EvalM Unit := fun m =>
  match m.scopes.assign? m.current name value with
  | some scopes => .ok () { m with scopes }
  | none => .error (.ofFault (.undefinedVariable name)) m

/-- Whether a scope is live. -/
def isLive (scope : ScopeId) : EvalM Bool := fun m => .ok (m.scopes.isLive scope) m

/-- The number of calls that have begun and not ended. -/
def callDepth : EvalM Nat := fun m => .ok m.callDepth m

/-- Print the text of a value. -/
def print (value : Value) : EvalM Unit := fun m =>
  .ok () { m with output := m.output.line value.display }

/-- A new closure of a declaration in the current scope. -/
def close (declaration : FunctionDecl) : EvalM Closure := fun m =>
  .ok ⟨m.declarations, declaration, m.current⟩ { m with declarations := m.declarations + 1 }

/-- Work in a new scope inside another one, in which names are bound first. The scope that is then current is released
afterwards, however the work ends, and the one from before is current again. -/
def within {α : Type} (parent : ScopeId) (bindings : List (String × Value)) (body : EvalM α) : EvalM α := fun m =>
  match body (m.enter parent bindings) with
  | .ok a m' => .ok a (m'.leave m.current)
  | .error e m' => .error e (m'.leave m.current)

/-- Work in a call, which counts as begun until the work ends. -/
def called {α : Type} (body : EvalM α) : EvalM α := fun m =>
  match body { m with callDepth := m.callDepth + 1 } with
  | .ok a m' => .ok a { m' with callDepth := m'.callDepth - 1 }
  | .error e m' => .error e { m' with callDepth := m'.callDepth - 1 }

end EvalM

end QueryTemplate
