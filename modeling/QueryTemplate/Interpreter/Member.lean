import QueryTemplate.Interpreter.Machine
import QueryTemplate.Text.Uppercase

/-!
# Host members

Construction of host objects, calls of their methods, and their fields. Reading or writing a field that the object
does not have is a call of the method that bears the field's name after `get` or `set`.
-/

namespace QueryTemplate.Member

/-- The name of the method that stands for a field: a verb and the field with a capital. -/
def accessorName (verb field : String) : String :=
  String.ofList (verb.toList ++ Uppercase.capitalize field.toList)

/-- Make an object of a type. -/
def construct (types : Registry) (t : HostType) (arguments : List Value) : EvalM Value :=
  match t.constructor? arguments with
  | some c => EvalM.host t.simpleName (types.bodies.construct c.body t arguments)
  | none => EvalM.fail (.constructorNotFound t.path arguments.length)

/-- Call a method of a type: on an object, or a static one without. -/
def invoke (types : Registry) (t : HostType) (receiver : Option ObjectRef) (name : String) (arguments : List Value) :
    EvalM Value :=
  match t.method? name arguments receiver.isNone with
  | some m => EvalM.host m.name (types.bodies.call m.body receiver arguments)
  | none => EvalM.fail (.memberNotFound name t.path)

/-- `receiver.name(arguments)`: a static method of a type, or any method of an object. -/
def call (types : Registry) (receiver : Value) (name : String) (arguments : List Value) : EvalM Value :=
  match receiver with
  | .null => EvalM.fail (.nullReceiver name)
  | .type t => invoke types t none name arguments
  | .object o => invoke types o.type (some o) name arguments
  | v => EvalM.fail (.memberNotFound name v.typeName)

/-- `receiver.field`: a field of an object, or what its `get` method yields. -/
def get (types : Registry) (receiver : Value) (field : String) : EvalM Value :=
  match receiver with
  | .null => EvalM.fail (.nullReceiver field)
  | .object o => do
    match (← EStateM.get).heap.get? o field with
    | some v => return v
    | none => invoke types o.type (some o) (accessorName "get" field) []
  | .type t => invoke types t none (accessorName "get" field) []
  | v => EvalM.fail (.memberNotFound field v.typeName)

/-- `receiver.field = value`: into a field of an object, or through its `set` method. Yields the value. -/
def set (types : Registry) (receiver : Value) (field : String) (value : Value) : EvalM Value :=
  match receiver with
  | .null => EvalM.fail (.nullReceiver field)
  | .object o => fun m =>
    match m.heap.set? o field value with
    | some heap => .ok value { m with heap }
    | none =>
      let setter := invoke types o.type (some o) (accessorName "set" field) [value]
      (setter *> pure value) m
  | v => EvalM.fail (.memberNotFound (accessorName "set" field) v.typeName)

end QueryTemplate.Member
