import QueryTemplate.Position

/-!
# Trees of templates

A template is a list of statements. Every expression has one place: that of the token that makes it what it is (the
name of a variable, the operator of an operation, the opening parenthesis of a call).
-/

namespace QueryTemplate

/-- A name with its place. -/
structure Ident where
  name : String
  position : Position
deriving DecidableEq, Repr

/-- Arithmetic and comparison. -/
inductive BinaryOp
  | add | sub | mul | div | eq | ne | lt | le | gt | ge
deriving DecidableEq, Repr

namespace BinaryOp

/-- All operators, as the language lists them. -/
def all : List BinaryOp := [add, sub, mul, div, eq, ne, lt, le, gt, ge]

def symbol : BinaryOp → String
  | add => "+"
  | sub => "-"
  | mul => "*"
  | div => "/"
  | eq => "=="
  | ne => "!="
  | lt => "<"
  | le => "<="
  | gt => ">"
  | ge => ">="

instance : ToString BinaryOp := ⟨symbol⟩

end BinaryOp

/-- Operators that look at their right operand only if the left one does not decide. -/
inductive LogicalOp
  | and | or
deriving DecidableEq, Repr

namespace LogicalOp

def symbol : LogicalOp → String
  | and => "&&"
  | or => "||"

instance : ToString LogicalOp := ⟨symbol⟩

end LogicalOp

/-- Operators before their operand. -/
inductive UnaryOp
  | neg | not
deriving DecidableEq, Repr

namespace UnaryOp

def symbol : UnaryOp → String
  | neg => "-"
  | not => "!"

instance : ToString UnaryOp := ⟨symbol⟩

end UnaryOp

/-- A literal as it is written. -/
inductive Literal
  | null
  | bool (b : Bool)
  | int (n : Int64)
  /-- The digits of an integer of more than 64 bits. -/
  | bigInt (digits : String)
  | float (x : Float)
  | string (s : String)
deriving DecidableEq

/-- Expressions. -/
inductive Expr
  | literal (value : Literal) (position : Position)
  | binary (op : BinaryOp) (left right : Expr) (position : Position)
  | logical (op : LogicalOp) (left right : Expr) (position : Position)
  | unary (op : UnaryOp) (operand : Expr) (position : Position)
  | grouping (inner : Expr) (position : Position)
  | name (name : Ident)
  | assign (target : Ident) (value : Expr)
  | call (callee : Expr) (arguments : List Expr) (position : Position)
  | callMethod (receiver : Expr) (method : Ident) (arguments : List Expr)
  | getField (receiver : Expr) (field : Ident)
  | setField (receiver : Expr) (field : Ident) (value : Expr)

namespace Expr

/-- The place of an expression. -/
def position : Expr → Position
  | literal _ p | binary _ _ _ p | logical _ _ _ p | unary _ _ p | grouping _ p | call _ _ p => p
  | name i | assign i _ | callMethod _ i _ | getField _ i | setField _ i _ => i.position

end Expr

/-- Statements. -/
inductive Stmt
  | expr (e : Expr)
  /-- `var name = value;` Without a value the name is bound to null. -/
  | define (name : Ident) (value : Expr)
  | print (e : Expr)
  | ifThen (condition : Expr) (thenBranch : Stmt)
  | ifElse (condition : Expr) (thenBranch elseBranch : Stmt)
  /-- Statements with a scope of their own. -/
  | block (body : List Stmt)
  | function (name : Ident) (parameters : List Ident) (body : List Stmt)
  /-- A function of one row, whose parameters are columns of it. -/
  | mapper (name : Ident) (parameters : List Ident) (body : List Stmt)
  /-- `return;` or `return value;` with the place of the word, or of the equals sign of a body `= value`. -/
  | ret (value : Option Expr) (position : Position)
  /-- `import path as alias;` -/
  | importType (path : String) (localName : Ident)

/-- What functions and mappers share: a name, parameters and a body. -/
structure FunctionDecl where
  name : Ident
  parameters : List Ident
  body : List Stmt

/-- A template. -/
abbrev Program := List Stmt

end QueryTemplate
