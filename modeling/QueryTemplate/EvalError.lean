import QueryTemplate.Value.Basic
import QueryTemplate.Diagnostic

/-!
# Faults of evaluation

Why an evaluation has no value. A fault gets the place of the innermost expression in which it arises.
-/

namespace QueryTemplate

/-- What can overflow. -/
inductive Computation
  | addition | subtraction | multiplication | division | negation
deriving DecidableEq, Repr

namespace Computation

def text : Computation → String
  | addition => "addition"
  | subtraction => "subtraction"
  | multiplication => "multiplication"
  | division => "division"
  | negation => "negation"

end Computation

/-- An operator on truth values. -/
inductive TruthOp
  | not
  | logical (op : LogicalOp)
deriving DecidableEq, Repr

namespace TruthOp

def symbol : TruthOp → String
  | not => UnaryOp.not.symbol
  | logical op => op.symbol

end TruthOp

/-- Why a computation is broken off in a panic. -/
inductive Panic
  /-- A text would be longer than any can be. -/
  | capacityOverflow
  /-- The scale of a decimal leaves its bits, or two scales are too far apart. -/
  | scaleOverflow
deriving DecidableEq, Repr

namespace Panic

def text : Panic → String
  | capacityOverflow => "capacity overflow"
  | scaleOverflow => "scale overflow"

end Panic

/-- Why an evaluation has no value. Types of values are given by their names, values by their texts. -/
inductive EvalFault
  | undefinedVariable (name : String)
  | unsupportedOperands (op : BinaryOp) (left right : String)
  | unsupportedOperand (op : UnaryOp) (operand : String)
  | nonBooleanOperand (op : TruthOp) (found : String)
  | nonBooleanCondition (found : String)
  | arityMismatch (name : String) (expected got : Nat)
  | divisionByZero
  | integerOverflow (computation : Computation)
  | numericConversion (value : String) (target : NumericKind)
  | memberNotFound (member type : String)
  | constructorNotFound (type : String) (arity : Nat)
  | nullReceiver (member : String)
  | notCallable (found : String)
  | mapperNotCallable (name : String)
  | typeNotFound (path : String)
  | hostFailure (member message : String)
  | callDepthExceeded (limit : Nat)
  | scopeExpired (name : String)
  | missingColumn (column : String)
  /-- Not an error that is reported: a panic breaks off the evaluation and the program around it. -/
  | panic (p : Panic)
deriving DecidableEq, Repr

namespace EvalFault

/-- The code under which an error is reported. A panic has none. -/
def code? : EvalFault → Option ErrorCode
  | undefinedVariable _ => some .undefinedVariable
  | unsupportedOperands .. | unsupportedOperand .. | numericConversion .. => some .unsupportedOperand
  | nonBooleanOperand .. | nonBooleanCondition _ => some .nonBoolean
  | arityMismatch .. => some .arityMismatch
  | divisionByZero => some .divisionByZero
  | integerOverflow _ => some .integerOverflow
  | memberNotFound .. => some .memberNotFound
  | constructorNotFound .. => some .constructorNotFound
  | nullReceiver _ => some .nullReceiver
  | notCallable _ | mapperNotCallable _ => some .notCallable
  | typeNotFound _ => some .typeNotFound
  | hostFailure .. => some .hostFailure
  | callDepthExceeded _ => some .callDepth
  | scopeExpired _ => some .expiredScope
  | missingColumn _ => some .missingColumn
  | panic _ => none

/-- Whether it is a panic. -/
def isPanic (fault : EvalFault) : Bool := fault.code?.isNone

def description : EvalFault → String
  | undefinedVariable name => "undefined variable '" ++ name ++ "'"
  | unsupportedOperands op left right =>
    "unsupported operation '" ++ op.symbol ++ "' between " ++ left ++ " and " ++ right
  | unsupportedOperand op operand => "unsupported operation '" ++ op.symbol ++ "' on " ++ operand
  | nonBooleanOperand op found => "operator '" ++ op.symbol ++ "' requires boolean operands, got " ++ found
  | nonBooleanCondition found => "expected boolean condition, got " ++ found
  | arityMismatch name expected got =>
    name ++ " expects " ++ toString expected ++ " argument(s), got " ++ toString got
  | divisionByZero => "division by zero"
  | integerOverflow computation => "integer overflow in " ++ computation.text
  | numericConversion value target => "cannot convert " ++ value ++ " to " ++ toString target
  | memberNotFound member type => "member '" ++ member ++ "' not found on " ++ type
  | constructorNotFound type arity =>
    "constructor of " ++ type ++ " taking " ++ toString arity ++ " argument(s) not found"
  | nullReceiver member => "null receiver: cannot access '" ++ member ++ "' on null"
  | notCallable found => "can only call functions or constructors, not " ++ found
  | mapperNotCallable name => "mapper '" ++ name ++ "' can only be applied to a row"
  | typeNotFound path => "type not found: " ++ path
  | hostFailure member message => member ++ " failed: " ++ message
  | callDepthExceeded limit => "maximum call depth exceeded (limit: " ++ toString limit ++ ")"
  | scopeExpired name => "function '" ++ name ++ "' outlived its defining scope"
  | missingColumn column => "row has no column '" ++ column ++ "'"
  | panic p => p.text

end EvalFault

/-- A fault with its place, or without one. -/
structure EvalError where
  fault : EvalFault
  position : Position
deriving DecidableEq, Repr

namespace EvalError

/-- A fault without a place. -/
def ofFault (fault : EvalFault) : EvalError := ⟨fault, .nowhere⟩

/-- Give an error a place, unless it has one. -/
def placed (e : EvalError) (position : Position) : EvalError :=
  if e.position.isSome then e else { e with position := position }

@[simp] theorem fault_placed (e : EvalError) (position : Position) : (e.placed position).fault = e.fault := by
  unfold placed
  split <;> rfl

def message (e : EvalError) : String := e.fault.description ++ e.position.suffix

/-- The report of an error. -/
def diagnostic? (e : EvalError) : Option Diagnostic :=
  e.fault.code?.map fun code => .error code e.fault.description e.position

end EvalError

end QueryTemplate
