import QueryTemplate.Host.Types
import QueryTemplate.Scope.Basic
import QueryTemplate.Tree.Basic
import QueryTemplate.Value.Number

/-!
# Values

What expressions evaluate to. Functions and mappers are closures: a declaration with a handle of the scope in which
it was executed. Host types and objects belong to the program around the templates. A value carries its type, and names
the object.
-/

namespace QueryTemplate

/-- A declared function or mapper. -/
structure Closure where
  /-- The number of declarations executed before this one. It tells closures apart. -/
  serial : Nat
  declaration : FunctionDecl
  /-- The scope in which the declaration was executed. -/
  scope : ScopeId

namespace Closure

def name (f : Closure) : String := f.declaration.name.name

/-- The number of parameters. -/
def arity (f : Closure) : Nat := f.declaration.parameters.length

end Closure

/-- A host object: its type, and its place on the heap. -/
structure ObjectRef where
  type : HostType
  index : Nat
deriving DecidableEq, Repr

/-- A value of the language. -/
inductive Value
  | null
  | bool (b : Bool)
  | number (n : Number)
  | string (s : String)
  | bytes (b : ByteArray)
  | function (f : Closure)
  | mapper (f : Closure)
  | type (t : HostType)
  | object (o : ObjectRef)

namespace Value

/-- The name of a value's type in messages. That of an object is the path of its type. -/
def typeName : Value → String
  | null => "null"
  | bool _ => "bool"
  | number n => toString n.kind
  | string _ => "string"
  | bytes _ => "bytes"
  | function _ => "function"
  | mapper _ => "mapper"
  | type _ => "type"
  | object o => o.type.path

/-- A byte as two hexadecimal digits. -/
def byteText (b : UInt8) : String :=
  String.ofList [Nat.digitChar (b.toNat / 16), Nat.digitChar (b.toNat % 16)]

/-- The bytes in hexadecimal digits. -/
def bytesText (b : ByteArray) : String := String.join (b.toList.map byteText)

/-- The text of a value. -/
def display : Value → String
  | null => "null"
  | bool b => toString b
  | number n => n.display
  | string s => s
  | bytes b => "0x" ++ bytesText b
  | function f => "<fun " ++ f.name ++ ">"
  | mapper f => "<mapper " ++ f.name ++ ">"
  | type t => "<type " ++ t.path ++ ">"
  | object o => "<" ++ o.type.path ++ " object>"

def isNull : Value → Bool
  | null => true
  | _ => false

def number? : Value → Option Number
  | number n => some n
  | _ => none

/-- The kind of a number. -/
def kind? (v : Value) : Option NumericKind := v.number?.map Number.kind

def bool? : Value → Option Bool
  | bool b => some b
  | _ => none

def string? : Value → Option String
  | string s => some s
  | _ => none

def int (n : Int32) : Value := number (.int n)
def long (n : Int64) : Value := number (.long n)
def float (x : Floating.Single) : Value := number (.float x)
def double (x : Floating.Double) : Value := number (.double x)
def bigInt (n : Int) : Value := number (.bigInt n)
def decimal (d : Decimal) : Value := number (.decimal d)

/-- Strict equality: values of the same type with the same content. Closures and objects are by identity, types by
path. -/
def same : Value → Value → Bool
  | null, null => true
  | bool a, bool b => a == b
  | number a, number b => a.same b
  | string a, string b => a == b
  | bytes a, bytes b => a == b
  | function f, function g => f.serial == g.serial
  | mapper f, mapper g => f.serial == g.serial
  | type t, type u => t.path == u.path
  | object o, object p => o.index == p.index
  | _, _ => false

end Value

end QueryTemplate
