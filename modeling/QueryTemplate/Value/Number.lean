import QueryTemplate.Decimal.Text
import QueryTemplate.Floating.Basic
import QueryTemplate.Floating.Text

/-!
# Numbers

The six kinds of number, from the narrowest to the widest. Two numbers of unlike kinds are worked with in the wider
of the two, except that a large integer and a floating-point number meet as decimals.
-/

namespace QueryTemplate

/-- The kinds of number, by rank. -/
inductive NumericKind
  | int | long | float | double | bigInt | decimal
deriving DecidableEq, Repr

namespace NumericKind

/-- All kinds, by rank. -/
def all : List NumericKind := [int, long, float, double, bigInt, decimal]

def rank : NumericKind → Nat
  | int => 0
  | long => 1
  | float => 2
  | double => 3
  | bigInt => 4
  | decimal => 5

def name : NumericKind → String
  | int => "int"
  | long => "long"
  | float => "float"
  | double => "double"
  | bigInt => "bigint"
  | decimal => "bigdecimal"

instance : ToString NumericKind := ⟨name⟩

/-- The kind with the given name. -/
def ofName? (s : String) : Option NumericKind := all.find? (·.name == s)

/-- The kind in which two numbers are worked with. -/
def promote (a b : NumericKind) : NumericKind :=
  match a, b with
  | bigInt, float | bigInt, double | float, bigInt | double, bigInt => decimal
  | _, _ => if a.rank ≤ b.rank then b else a

end NumericKind

/-- A number. -/
inductive Number
  | int (n : Int32)
  | long (n : Int64)
  | float (x : Floating.Single)
  | double (x : Floating.Double)
  | bigInt (n : Int)
  | decimal (d : Decimal)
deriving DecidableEq

namespace Number

def kind : Number → NumericKind
  | int _ => .int
  | long _ => .long
  | float _ => .float
  | double _ => .double
  | bigInt _ => .bigInt
  | decimal _ => .decimal

/-- The text of a number. -/
def display : Number → String
  | int n => integerText n.toInt
  | long n => integerText n.toInt
  | float x => x.decode.display
  | double x => x.decode.display
  | bigInt n => integerText n
  | decimal d => toString d

/-- Whether two numbers are of the same kind and the same. Decimals are by value, floating-point numbers by bits. -/
def same : Number → Number → Bool
  | int a, int b => a == b
  | long a, long b => a == b
  | float x, float y => x.bits == y.bits
  | double x, double y => x.bits == y.bits
  | bigInt a, bigInt b => a == b
  | decimal a, decimal b => a.equals b
  | _, _ => false

end Number

end QueryTemplate
