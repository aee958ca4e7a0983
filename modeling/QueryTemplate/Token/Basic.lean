import QueryTemplate.Position
import QueryTemplate.Floating.Text

/-!
# Tokens

A token is a kind, the payload of a literal or a name, and the place where it starts. A list of tokens ends with
the end-of-input token, which has no place.
-/

namespace QueryTemplate

/-- The kinds of token. -/
inductive TokenKind
  | leftParen | rightParen | leftBrace | rightBrace | comma | dot | minus | plus | semicolon | slash | star
  | bang | bangEqual | equal | equalEqual | greater | greaterEqual | less | lessEqual
  | ampersand | and | verticalBar | or
  | identifier | string | number | trueWord | falseWord | nullWord
  | varWord | funWord | ifWord | elseWord | forWord | whileWord | returnWord | importWord | printWord
  | endOfInput
deriving DecidableEq, Repr

namespace TokenKind

/-- All kinds, in the order of their declaration. -/
def all : List TokenKind :=
  [leftParen, rightParen, leftBrace, rightBrace, comma, dot, minus, plus, semicolon, slash, star,
    bang, bangEqual, equal, equalEqual, greater, greaterEqual, less, lessEqual,
    ampersand, and, verticalBar, or,
    identifier, string, number, trueWord, falseWord, nullWord,
    varWord, funWord, ifWord, elseWord, forWord, whileWord, returnWord, importWord, printWord,
    endOfInput]

/-- The name of a kind in messages and token dumps. -/
def name : TokenKind → String
  | leftParen => "LEFT_PAREN"
  | rightParen => "RIGHT_PAREN"
  | leftBrace => "LEFT_BRACE"
  | rightBrace => "RIGHT_BRACE"
  | comma => "COMMA"
  | dot => "DOT"
  | minus => "MINUS"
  | plus => "PLUS"
  | semicolon => "SEMICOLON"
  | slash => "SLASH"
  | star => "STAR"
  | bang => "BANG"
  | bangEqual => "BANG_EQUAL"
  | equal => "EQUAL"
  | equalEqual => "EQUAL_EQUAL"
  | greater => "GREATER"
  | greaterEqual => "GREATER_EQUAL"
  | less => "LESS"
  | lessEqual => "LESS_EQUAL"
  | ampersand => "AMPERSAND"
  | and => "AND"
  | verticalBar => "VERTICAL_BAR"
  | or => "OR"
  | identifier => "IDENTIFIER"
  | string => "STRING"
  | number => "NUMBER"
  | trueWord => "TRUE"
  | falseWord => "FALSE"
  | nullWord => "NULL"
  | varWord => "VAR"
  | funWord => "FUN"
  | ifWord => "IF"
  | elseWord => "ELSE"
  | forWord => "FOR"
  | whileWord => "WHILE"
  | returnWord => "RETURN"
  | importWord => "IMPORT"
  | printWord => "PRINT"
  | endOfInput => "EOF"

instance : ToString TokenKind := ⟨name⟩

/-- The kind with the given name. -/
def ofName? (s : String) : Option TokenKind :=
  all.find? (·.name == s)

/-- The kind of a reserved word. -/
def keyword? (word : String) : Option TokenKind :=
  match word with
  | "true" => some trueWord
  | "false" => some falseWord
  | "null" => some nullWord
  | "var" => some varWord
  | "fun" => some funWord
  | "if" => some ifWord
  | "else" => some elseWord
  | "for" => some forWord
  | "while" => some whileWord
  | "return" => some returnWord
  | "import" => some importWord
  | "println" => some printWord
  | _ => none

end TokenKind

/-- What a token carries beside its kind. -/
inductive Payload
  | empty
  /-- The text of a name, or of a string with its escapes undone. -/
  | text (s : String)
  /-- An integer literal that fits into 64 bits. -/
  | integer (n : Int64)
  /-- The digits of a larger integer literal. -/
  | bigInteger (digits : String)
  /-- A literal with a decimal point. -/
  | decimal (x : Float)
deriving DecidableEq

namespace Payload

/-- The text of a payload in token dumps. -/
def describe : Payload → String
  | empty => ""
  | text s => s
  | integer n => toString n.toInt
  | bigInteger digits => digits
  | decimal x => (Floating.decodeDouble x).compact

/-- The text that a payload carries, or the digits of a large integer. -/
def text? : Payload → Option String
  | text s => some s
  | bigInteger digits => some digits
  | _ => none

end Payload

/-- A token of a template. -/
structure Token where
  kind : TokenKind
  payload : Payload
  position : Position
deriving DecidableEq

namespace Token

/-- The token that closes every list of tokens. -/
def endOfInput : Token := ⟨.endOfInput, .empty, .nowhere⟩

/-- The kind with the payload in parentheses. -/
def describe (t : Token) : String :=
  match t.payload with
  | .empty => toString t.kind
  | p => toString t.kind ++ "(" ++ p.describe ++ ")"

/-- The description with the place. -/
def dump (t : Token) : String :=
  t.describe ++ " @ " ++ toString t.position

/-- The text of a name or string token. -/
def text (t : Token) : String := t.payload.text?.getD ""

end Token

end QueryTemplate
