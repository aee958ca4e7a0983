/-!
# Host types

A host type exposes a type of the surrounding program to templates: its fields, constructors and methods. What their
bodies do is known to that program, which numbers them.
-/

namespace QueryTemplate

/-- What a parameter takes. -/
inductive ParameterType
  | any | bool | int | long | float | double | bigInt | decimal | string | bytes | function
  /-- Objects of a type with this path. -/
  | object (path : String)
deriving DecidableEq, Repr

/-- A constructor of a host type. -/
structure Constructor where
  parameters : List ParameterType
  /-- The number of its body. -/
  body : Nat
deriving DecidableEq, Repr

namespace Constructor

/-- The constructor without parameters, of an object all of whose fields are null. -/
def default : Constructor := ⟨[], 0⟩

end Constructor

/-- A method of a host type. -/
structure Method where
  name : String
  parameters : List ParameterType
  /-- Whether it can be called without a receiver. -/
  isStatic : Bool
  /-- The number of its body. -/
  body : Nat
deriving DecidableEq, Repr

/-- A host type. -/
structure HostType where
  path : String
  /-- The fields of its objects. -/
  fields : List String
  constructors : List Constructor
  methods : List Method
deriving DecidableEq, Repr

namespace HostType

/-- The last name of the path. -/
def simpleName (t : HostType) : String :=
  String.ofList ((t.path.toList.splitOn '.').getLastD [])

/-- Whether objects of the type have a field. -/
def hasField (t : HostType) (field : String) : Bool := t.fields.contains field

end HostType

end QueryTemplate
