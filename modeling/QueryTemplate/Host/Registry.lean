import QueryTemplate.Host.Heap

/-!
# Host types at work

Of several constructors of a host type, or of several methods of one name, the first is taken whose parameters accept
the arguments. Its body is a function of the surrounding program on the heap (`Bodies`). Templates can import the types
of a registry.
-/

namespace QueryTemplate

/-- A computation of the surrounding program: it may fail with a message, and what it did to the heap stays. -/
abbrev HostM := EStateM String Heap

namespace ParameterType

/-- Whether a number of a kind is taken. A parameter also takes narrower numbers of the kinds below its own. -/
def acceptsKind : ParameterType → NumericKind → Bool
  | int, k => k == .int
  | long, k => k == .int || k == .long
  | float, k => k == .int || k == .long || k == .float
  | double, k => k == .int || k == .long || k == .float || k == .double
  | bigInt, k => k == .int || k == .long || k == .bigInt
  | decimal, _ => true
  | _, _ => false

/-- Whether a value is taken. -/
def accepts : ParameterType → Value → Bool
  | any, _ => true
  | bool, .bool _ => true
  | string, .string _ => true
  | bytes, .bytes _ => true
  | function, .function _ => true
  | object path, .object o => o.type.path == path
  | p, .number n => p.acceptsKind n.kind
  | _, _ => false

/-- Whether a value is taken as an argument. Every parameter takes null. -/
def takes (p : ParameterType) (v : Value) : Bool := v.isNull || p.accepts v

/-- Whether parameters take arguments: as many, each by its own parameter. -/
def takeAll : List ParameterType → List Value → Bool
  | [], [] => true
  | p :: ps, v :: vs => p.takes v && takeAll ps vs
  | _, _ => false

end ParameterType

/-- Whether the constructor takes the arguments. -/
def Constructor.takes (c : Constructor) (arguments : List Value) : Bool := ParameterType.takeAll c.parameters arguments

/-- Whether the method answers a call by a name: it bears the name, it is static if the call asks for that, and it takes
the arguments. -/
def Method.answers (m : Method) (name : String) (arguments : List Value) (staticOnly : Bool) : Bool :=
  m.name == name && (!staticOnly || m.isStatic) && ParameterType.takeAll m.parameters arguments

namespace HostType

/-- The constructor that takes the arguments. -/
def constructor? (t : HostType) (arguments : List Value) : Option Constructor :=
  t.constructors.find? (·.takes arguments)

/-- The method of a name that takes the arguments, among the static ones only if so asked. -/
def method? (t : HostType) (name : String) (arguments : List Value) (staticOnly : Bool) : Option Method :=
  t.methods.find? (·.answers name arguments staticOnly)

/-- A new object, all of whose fields are null. -/
def allocate (t : HostType) : HostM ObjectRef := fun h =>
  let (o, h) := h.allocate t
  .ok o h

end HostType

/-- The bodies of constructors and methods, by their numbers. -/
structure Bodies where
  /-- The body of a constructor is given the type. -/
  construct : Nat → HostType → List Value → HostM Value
  /-- The body of a method is given the receiver, of which a static call has none. -/
  call : Nat → Option ObjectRef → List Value → HostM Value

namespace Bodies

/-- The bodies of a program, after that of the default constructor. -/
def ofProgram (construct : Nat → HostType → List Value → HostM Value)
    (call : Nat → Option ObjectRef → List Value → HostM Value) : Bodies where
  construct
    | 0, t, _ => do return .object (← t.allocate)
    | n + 1, t, arguments => construct n t arguments
  call := call

/-- Those of a program that has none of its own. -/
def empty : Bodies := ofProgram (fun _ _ _ => throw "no such constructor") fun _ _ _ => throw "no such method"

end Bodies

/-- The host types that templates can import, by path, and the bodies of all host types. -/
structure Registry where
  imports : Bindings HostType
  bodies : Bodies

namespace Registry

/-- No types. -/
def empty : Registry := ⟨.empty, .empty⟩

/-- The type at a path. -/
def find? (r : Registry) (path : String) : Option HostType := r.imports.find? path

/-- Add a type, in place of any other of its path. -/
def register (r : Registry) (t : HostType) : Registry := { r with imports := r.imports.insert t.path t }

/-- The registry of a list of types. -/
def ofList (bodies : Bodies) (types : List HostType) : Registry := types.foldl register ⟨.empty, bodies⟩

/-- The paths in ascending order. -/
def paths (r : Registry) : List String := r.imports.names.mergeSort fun a b => a ≤ b

end Registry

end QueryTemplate
