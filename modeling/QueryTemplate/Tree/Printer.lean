import QueryTemplate.Tree.Precedence
import QueryTemplate.Token.Lexeme

/-!
# The canonical form of a template

A tree is written as a list of lexemes, and the canonical text is their concatenation. Operations stand in
parentheses, so that no reader has to know how tightly an operator binds; a group around an operation adds none.
There is one statement on a line, and blocks are indented.
-/

namespace QueryTemplate

namespace Lexeme

/-- The text of a list of lexemes. -/
def text (ls : List Lexeme) : String := String.ofList (ls.flatMap spelling)

/-- One space. -/
def space : Lexeme := .blank [' ']

/-- Blanks between levels of blocks. -/
def indentWidth : Nat := 4

/-- A line end and the indentation of the next line. -/
def newline (depth : Nat) : Lexeme := .blank ('\n' :: List.replicate (depth * indentWidth) ' ')

/-- A reserved word or a name. -/
def ofWord (s : String) : Lexeme := .word s.toList

def leftParen : Lexeme := .operator .leftParen ['(']
def rightParen : Lexeme := .operator .rightParen [')']
def leftBrace : Lexeme := .operator .leftBrace ['{']
def rightBrace : Lexeme := .operator .rightBrace ['}']
def comma : Lexeme := .operator .comma [',']
def dot : Lexeme := .operator .dot ['.']
def equal : Lexeme := .operator .equal ['=']
def semicolon : Lexeme := .operator .semicolon [';']

/-- A column reference is a lexeme of its own kind; all other names are words. -/
def ofName (s : String) : Lexeme :=
  match s.toList with
  | '#' :: cs => .column cs
  | cs => .word cs

/-- A number with a point: `.0` is added where there is none. -/
def ofFloat (x : Float) : Lexeme :=
  let cs := (Floating.decodeDouble x).plain.toList
  match cs.dropWhile (· != '.') with
  | _ :: fraction => .decimal (cs.takeWhile (· != '.')) fraction
  | [] => .decimal cs ['0']

/-- The lexeme of a literal. -/
def ofLiteral : Literal → Lexeme
  | .null => ofWord "null"
  | .bool true => ofWord "true"
  | .bool false => ofWord "false"
  | .int n => .integer (toString n.toInt).toList
  | .bigInt digits => .integer digits.toList
  | .float x => ofFloat x
  | .string s => .quoted (Quoted.encode s.toList)

/-- The names of a path with points between them. -/
def ofPath (path : String) : List Lexeme :=
  ((path.toList.splitOn '.').map fun cs => ofName (String.ofList cs)).intersperse dot

/-- Parameters with commas between them. -/
def ofParameters (parameters : List Ident) : List Lexeme :=
  match parameters with
  | [] => []
  | p :: ps => ofName p.name :: ps.flatMap fun q => [comma, space, ofName q.name]

end Lexeme

open Lexeme

/-- Lexemes between parentheses, where these are needed. -/
def parenthesizedIf (needed : Bool) (ls : List Lexeme) : List Lexeme :=
  if needed then leftParen :: ls ++ [rightParen] else ls

/-- The lexeme of an operator. -/
def Operator.lexeme (op : Operator) : Lexeme :=
  match op with
  | .logical op => .operator (kind (.logical op)) op.symbol.toList
  | .binary op => .operator (kind (.binary op)) op.symbol.toList

/-- The lexeme of an operator before its operand. -/
def UnaryOp.lexeme (op : UnaryOp) : Lexeme :=
  .operator op.kind op.symbol.toList

namespace Expr

/-- Whether the canonical form is in parentheses already. -/
def isParenthesized : Expr → Bool
  | binary .. | logical .. | grouping .. => true
  | _ => false

/-- Whether the canonical form has to be put in parentheses to be called, to have its members taken, or to stand
after an operator. -/
def isOpen : Expr → Bool
  | unary .. | assign .. | setField .. => true
  | _ => false

mutual

/-- The canonical form of an expression. -/
def lexemes : Expr → List Lexeme
  | literal l _ => [ofLiteral l]
  | binary op left right _ =>
    leftParen :: left.lexemes ++ [space, (Operator.binary op).lexeme, space] ++ right.lexemes ++ [rightParen]
  | logical op left right _ =>
    leftParen :: left.lexemes ++ [space, (Operator.logical op).lexeme, space] ++ right.lexemes ++ [rightParen]
  | unary op operand _ => op.lexeme :: parenthesizedIf operand.isOpen operand.lexemes
  | grouping inner _ => parenthesizedIf (!inner.isParenthesized) inner.lexemes
  | name i => [ofName i.name]
  | assign target value => [ofName target.name, space, equal, space] ++ value.lexemes
  | call callee arguments _ => parenthesizedIf callee.isOpen callee.lexemes ++ argumentLexemes arguments
  | callMethod receiver method arguments =>
    parenthesizedIf receiver.isOpen receiver.lexemes ++ [dot, ofName method.name] ++ argumentLexemes arguments
  | getField receiver field => parenthesizedIf receiver.isOpen receiver.lexemes ++ [dot, ofName field.name]
  | setField receiver field value =>
    parenthesizedIf receiver.isOpen receiver.lexemes ++ [dot, ofName field.name, space, equal, space] ++ value.lexemes

/-- Arguments in parentheses, with commas between them. -/
def argumentLexemes : List Expr → List Lexeme
  | [] => [leftParen, rightParen]
  | e :: es => leftParen :: e.lexemes ++ furtherLexemes es

/-- The arguments after the first, each after a comma, and the closing parenthesis. -/
def furtherLexemes : List Expr → List Lexeme
  | [] => [rightParen]
  | e :: es => comma :: space :: e.lexemes ++ furtherLexemes es

end

end Expr

namespace Stmt

/-- Whether a statement, written after a condition, would be read as a part of it. -/
def continuesCondition : Stmt → Bool
  | expr e =>
    match e.lexemes.flatMap spelling with
    | c :: _ => c == '(' || c == '-'
    | [] => false
  | _ => false

/-- Lexemes that depend on the depth of their block, in a block of their own where that is needed. -/
def bracedIf (needed : Bool) (depth : Nat) (ls : Nat → List Lexeme) : List Lexeme :=
  if needed then [leftBrace, newline (depth + 1)] ++ ls (depth + 1) ++ [newline depth, rightBrace] else ls depth

/-- A path and, where it differs from the last name of the path, the local name. -/
def importLexemes (path localName : String) : List Lexeme :=
  [ofWord "import", space] ++ ofPath path
    ++ (if (path.toList.splitOn '.').getLast? = some localName.toList then []
        else [space, ofWord "as", space, ofName localName])
    ++ [semicolon]

mutual

/-- The canonical form of a statement in a block of the given depth. -/
def lexemes (depth : Nat) : Stmt → List Lexeme
  | expr e => e.lexemes ++ [semicolon]
  | define name value => [ofWord "var", space, ofName name.name, space, equal, space] ++ value.lexemes ++ [semicolon]
  | print e => [ofWord "println", space] ++ e.lexemes ++ [semicolon]
  | ifThen condition thenBranch =>
    [ofWord "if", space] ++ condition.lexemes ++ [space]
      ++ bracedIf thenBranch.continuesCondition depth (fun d => thenBranch.lexemes d)
  | ifElse condition thenBranch elseBranch =>
    [ofWord "if", space] ++ condition.lexemes ++ [space]
      ++ bracedIf thenBranch.continuesCondition depth (fun d => thenBranch.lexemes d)
      ++ [space, ofWord "else", space] ++ elseBranch.lexemes depth
  | block body => blockLexemes depth body
  | function name parameters body =>
    [ofWord "fun", space, ofName name.name, leftParen] ++ ofParameters parameters ++ [rightParen, space]
      ++ blockLexemes depth body
  | mapper name parameters body =>
    [ofName name.name, leftParen] ++ ofParameters parameters ++ [rightParen, space] ++ blockLexemes depth body
  | ret (some value) _ => [ofWord "return", space] ++ value.lexemes ++ [semicolon]
  | ret none _ => [ofWord "return", semicolon]
  | importType path localName => importLexemes path localName.name
termination_by structural s => s

/-- Statements in braces, one on a line. -/
def blockLexemes (depth : Nat) : List Stmt → List Lexeme
  | [] => [leftBrace, rightBrace]
  | s :: ss =>
    leftBrace :: newline (depth + 1) :: s.lexemes (depth + 1) ++ furtherLexemes (depth + 1) ss
      ++ [newline depth, rightBrace]
termination_by structural ss => ss

/-- Statements that each start a line. -/
def furtherLexemes (depth : Nat) : List Stmt → List Lexeme
  | [] => []
  | s :: ss => newline depth :: s.lexemes depth ++ furtherLexemes depth ss
termination_by structural ss => ss

end

/-- The canonical text of a statement at top level. -/
def format (s : Stmt) : String := text (s.lexemes 0)

end Stmt

/-- The canonical text of a template. -/
def formatProgram : Program → String
  | [] => ""
  | s :: ss => text (s.lexemes 0 ++ Stmt.furtherLexemes 0 ss)

end QueryTemplate
