import QueryTemplate.Value.Basic

/-!
# Rows

A row of a result has named columns with a declared type and a cell each. A cell is read by the accessor of its
column's type, which sees nothing where the cell is null or holds a value that it cannot read.
-/

namespace QueryTemplate

/-- Declared types of columns. -/
inductive ColumnType
  | char | varchar | longVarchar | numeric | decimal | bit | tinyInt | smallInt | integer | bigInt | real | float
  | double | binary | varBinary | longVarBinary | blob | date | time | timestamp | array | null | other
deriving DecidableEq, Repr

namespace ColumnType

/-- All types with their names. -/
def table : List (String × ColumnType) :=
  [("CHAR", char), ("VARCHAR", varchar), ("LONGVARCHAR", longVarchar), ("NUMERIC", numeric), ("DECIMAL", decimal),
    ("BIT", bit), ("TINYINT", tinyInt), ("SMALLINT", smallInt), ("INTEGER", integer), ("BIGINT", bigInt),
    ("REAL", real), ("FLOAT", float), ("DOUBLE", double), ("BINARY", binary), ("VARBINARY", varBinary),
    ("LONGVARBINARY", longVarBinary), ("BLOB", blob), ("DATE", date), ("TIME", time), ("TIMESTAMP", timestamp),
    ("ARRAY", array), ("NULL", null), ("OTHER", other)]

/-- The type with the given name. -/
def ofName? (name : String) : Option ColumnType := table.lookup name

end ColumnType

namespace Value

/-- A cell as text. -/
def asText? (v : Value) : Option String := if v.isNull then none else some v.display

/-- A cell as a decimal; values of other kinds by their text. -/
def asDecimal? : Value → Option Decimal
  | null => none
  | number (.decimal d) => some d
  | number (.int n) => some (.ofInt n.toInt)
  | number (.long n) => some (.ofInt n.toInt)
  | v => Decimal.ofString? v.display

/-- A cell as an integer of 32 bits. -/
def asInt? : Value → Option Int32
  | number (.int n) => some n
  | number (.long n) => if fitsInto 32 n.toInt then some (Int32.ofInt n.toInt) else none
  | _ => none

/-- A cell as an integer of 64 bits. -/
def asLong? : Value → Option Int64
  | number (.int n) => some n.toInt64
  | number (.long n) => some n
  | _ => none

/-- A cell as a floating-point number of 32 bits; one of 64 bits is rounded. -/
def asFloat? : Value → Option Floating.Single
  | number (.float x) => some x
  | number (.double x) => some x.toSingle
  | _ => none

/-- A cell as a floating-point number of 64 bits. -/
def asDouble? : Value → Option Floating.Double
  | number (.float x) => some x.toDouble
  | number (.double x) => some x
  | _ => none

/-- A cell as bytes; text is encoded. -/
def asBytes? : Value → Option ByteArray
  | bytes b => some b
  | string s => some s.toUTF8
  | _ => none

end Value

/-- A column of a row with its cell. -/
structure Column where
  name : String
  type : ColumnType
  cell : Value

namespace Column

/-- What the accessor of the column's type sees in the cell. -/
def read? (c : Column) : Option Value :=
  match c.type with
  | .char | .varchar | .longVarchar | .date | .time | .timestamp | .array | .other => c.cell.asText?.map .string
  | .numeric | .decimal => c.cell.asDecimal?.map .decimal
  | .bit => c.cell.bool?.map .bool
  | .tinyInt | .smallInt | .integer => c.cell.asInt?.map .int
  | .bigInt => c.cell.asLong?.map .long
  | .real | .float => c.cell.asFloat?.map .float
  | .double => c.cell.asDouble?.map .double
  | .binary | .varBinary | .longVarBinary | .blob => c.cell.asBytes?.map .bytes
  | .null => none

/-- The value of the column: what its accessor sees, or null. -/
def value (c : Column) : Value := c.read?.getD .null

end Column

/-- A row of a result. -/
abbrev Row := List Column

namespace Row

/-- The name under which a mapper sees a column of this name. -/
def reference (name : String) : String := "#" ++ name

/-- Whether two names differ at most in the case of unaccented letters. -/
def sameName (a b : String) : Bool := a.toList.map Char.toLower == b.toList.map Char.toLower

/-- The first column of a name, whatever the case of its letters. -/
def findColumn? (row : Row) (name : String) : Option Column := row.find? fun c => sameName c.name name

/-- The place of the first column of a name. -/
def findIndex? (row : Row) (name : String) : Option Nat := row.findIdx? fun c => sameName c.name name

/-- All columns by reference, in their order. -/
def bindings (row : Row) : List (String × Value) := row.map fun c => (reference c.name, c.value)

end Row

end QueryTemplate
