import QueryTemplate.Tree.Printer

/-!
# Trees as symbolic expressions

A compact dump of a tree: every node is a list in parentheses that starts with the name of its form.
-/

namespace QueryTemplate

/-- A symbolic expression. -/
inductive SExpr
  | atom (s : String)
  | list (items : List SExpr)

namespace SExpr

mutual

/-- Atoms as they are, lists in parentheses. -/
def chars : SExpr → List Char
  | atom s => s.toList
  | list items => '(' :: charsOfItems items

/-- The items of a list with spaces between them, and the closing parenthesis. -/
def charsOfItems : List SExpr → List Char
  | [] => [')']
  | e :: es => e.chars ++ charsOfFurther es

/-- The items after the first, each after a space, and the closing parenthesis. -/
def charsOfFurther : List SExpr → List Char
  | [] => [')']
  | e :: es => ' ' :: e.chars ++ charsOfFurther es

end

/-- The text of a symbolic expression. -/
def text (e : SExpr) : String := String.ofList e.chars

/-- A list with a name at its front. -/
def form (head : String) (items : List SExpr) : SExpr := list (atom head :: items)

end SExpr

open SExpr

namespace Expr

mutual

/-- The dump of an expression. -/
def sexpr : Expr → SExpr
  | literal l _ => atom (Lexeme.text [Lexeme.ofLiteral l])
  | binary op left right _ => form op.symbol [left.sexpr, right.sexpr]
  | logical op left right _ => form op.symbol [left.sexpr, right.sexpr]
  | unary op operand _ => form op.symbol [operand.sexpr]
  | grouping inner _ => form "group" [inner.sexpr]
  | name i => atom i.name
  | assign target value => form "=" [atom target.name, value.sexpr]
  | call callee arguments _ => form "call" (callee.sexpr :: sexprs arguments)
  | callMethod receiver method arguments => form "method" (receiver.sexpr :: atom method.name :: sexprs arguments)
  | getField receiver field => form "get" [receiver.sexpr, atom field.name]
  | setField receiver field value => form "set" [receiver.sexpr, atom field.name, value.sexpr]

/-- The dumps of arguments. -/
def sexprs : List Expr → List SExpr
  | [] => []
  | e :: es => e.sexpr :: sexprs es

end

end Expr

namespace Stmt

/-- The dump of a parameter list. -/
def parameterSExpr (parameters : List Ident) : SExpr :=
  list (parameters.map fun p => atom p.name)

mutual

/-- The dump of a statement. -/
def sexpr : Stmt → SExpr
  | expr e => e.sexpr
  | define name value => form "var" [atom name.name, value.sexpr]
  | print e => form "println" [e.sexpr]
  | ifThen condition thenBranch => form "if" [condition.sexpr, thenBranch.sexpr]
  | ifElse condition thenBranch elseBranch => form "if" [condition.sexpr, thenBranch.sexpr, elseBranch.sexpr]
  | block body => form "block" (sexprs body)
  | function name parameters body => form "fun" (atom name.name :: parameterSExpr parameters :: sexprs body)
  | mapper name parameters body => form "mapper" (atom name.name :: parameterSExpr parameters :: sexprs body)
  | ret value _ => form "return" (value.map Expr.sexpr).toList
  | importType path localName => form "import" [atom path, atom localName.name]

/-- The dumps of the statements of a body. -/
def sexprs : List Stmt → List SExpr
  | [] => []
  | s :: ss => s.sexpr :: sexprs ss

end

end Stmt

/-- The dump of a template: one line for each statement. -/
def programSExpr (p : Program) : String :=
  "\n".intercalate (p.map fun s => s.sexpr.text)

end QueryTemplate
