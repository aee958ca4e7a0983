import QueryTemplate.Token.Basic
import QueryTemplate.Diagnostic

/-!
# Faults of form

Why a list of tokens is no template, with the place of the token at which that shows.
-/

namespace QueryTemplate

/-- Punctuation that must stand at one place. -/
inductive Landmark
  | openParameters | closeParameters | closeArguments | closeGroup
deriving DecidableEq, Repr

namespace Landmark

/-- The token that is wanted there. -/
def kind : Landmark → TokenKind
  | openParameters => .leftParen
  | closeParameters | closeArguments | closeGroup => .rightParen

def description : Landmark → String
  | openParameters => "'(' after function name"
  | closeParameters => "')' after parameters"
  | closeArguments => "')' after arguments"
  | closeGroup => "')' after expression"

end Landmark

/-- What a name stands for at its place. -/
inductive NameRole
  | variableName | functionName | parameterName | typePath | typePathSegment | importAlias | propertyName
deriving DecidableEq, Repr

namespace NameRole

def description : NameRole → String
  | variableName => "variable name"
  | functionName => "function name"
  | parameterName => "parameter name"
  | typePath => "type path after import"
  | typePathSegment => "type path segment after '.'"
  | importAlias => "alias after 'as'"
  | propertyName => "property name after '.'"

end NameRole

/-- Loops, which templates do not have. -/
inductive LoopWord
  | forLoop | whileLoop
deriving DecidableEq, Repr

namespace LoopWord

def text : LoopWord → String
  | forLoop => "for"
  | whileLoop => "while"

end LoopWord

/-- What is wrong with a list of tokens. -/
inductive ParseFault
  | expected (what : Landmark) (found : TokenKind)
  | expectedExpression (found : TokenKind)
  | expectedName (role : NameRole) (found : TokenKind)
  | unclosedBlock
  | invalidAssignmentTarget
  | missingFunctionBody
  | unsupportedLoop (word : LoopWord)
deriving DecidableEq, Repr

namespace ParseFault

def code : ParseFault → ErrorCode
  | expected .. => .unexpectedToken
  | expectedExpression _ => .expectedExpression
  | expectedName .. => .expectedIdentifier
  | unclosedBlock => .unclosedBlock
  | invalidAssignmentTarget => .invalidAssignmentTarget
  | missingFunctionBody => .missingFunctionBody
  | unsupportedLoop _ => .unsupportedConstruct

def description : ParseFault → String
  | expected what found => "expect " ++ what.description ++ ", found " ++ toString found
  | expectedExpression found => "expect expression, found " ++ toString found
  | expectedName role found => "expect " ++ role.description ++ ", found " ++ toString found
  | unclosedBlock => "expect '\x7d' after block"
  | invalidAssignmentTarget => "invalid assignment target"
  | missingFunctionBody => "expect '\x7b' or '=' before function body"
  | unsupportedLoop word => "unsupported construct: '" ++ word.text ++ "' is not supported"

def notes : ParseFault → List String
  | unsupportedLoop _ => ["loops are not part of the template language"]
  | _ => []

end ParseFault

/-- A fault with its place. -/
structure ParseError where
  fault : ParseFault
  position : Position
deriving DecidableEq, Repr

namespace ParseError

def message (e : ParseError) : String :=
  e.fault.description ++ " at " ++ toString e.position

def diagnostic (e : ParseError) : Diagnostic :=
  { Diagnostic.error e.fault.code e.fault.description e.position with notes := e.fault.notes }

end ParseError

end QueryTemplate
