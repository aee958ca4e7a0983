import QueryTemplate.Position

/-!
# Diagnostics

A diagnostic reports one fault of a template: a code, a message, a place and notes. Rendered against the template
it quotes the line of the fault and puts a caret under the column.
-/

namespace QueryTemplate

/-- The stage of the work that finds a fault. -/
inductive Stage
  | lexing | parsing | evaluation
deriving DecidableEq, Repr

/-- The kinds of fault that a template can have. -/
inductive ErrorCode
  | unterminatedString | unexpectedCharacter | numberOutOfRange
  | unexpectedToken | expectedExpression | unclosedBlock | expectedIdentifier | invalidAssignmentTarget
  | missingFunctionBody | unsupportedConstruct
  | undefinedVariable | unsupportedOperand | nonBoolean | arityMismatch | divisionByZero | integerOverflow
  | memberNotFound | constructorNotFound | nullReceiver | notCallable | typeNotFound | hostFailure | callDepth
  | expiredScope | missingColumn
deriving DecidableEq, Repr

namespace ErrorCode

/-- All codes, by stage and then by number. -/
def all : List ErrorCode :=
  [unterminatedString, unexpectedCharacter, numberOutOfRange,
    unexpectedToken, expectedExpression, unclosedBlock, expectedIdentifier, invalidAssignmentTarget,
    missingFunctionBody, unsupportedConstruct,
    undefinedVariable, unsupportedOperand, nonBoolean, arityMismatch, divisionByZero, integerOverflow,
    memberNotFound, constructorNotFound, nullReceiver, notCallable, typeNotFound, hostFailure, callDepth,
    expiredScope, missingColumn]

/-- The written form: `E`, a digit for the stage and a number within it. -/
def text : ErrorCode → String
  | unterminatedString => "E0001"
  | unexpectedCharacter => "E0002"
  | numberOutOfRange => "E0003"
  | unexpectedToken => "E1001"
  | expectedExpression => "E1002"
  | unclosedBlock => "E1003"
  | expectedIdentifier => "E1004"
  | invalidAssignmentTarget => "E1005"
  | missingFunctionBody => "E1006"
  | unsupportedConstruct => "E1007"
  | undefinedVariable => "E2001"
  | unsupportedOperand => "E2002"
  | nonBoolean => "E2003"
  | arityMismatch => "E2004"
  | divisionByZero => "E2005"
  | integerOverflow => "E2006"
  | memberNotFound => "E2007"
  | constructorNotFound => "E2008"
  | nullReceiver => "E2009"
  | notCallable => "E2010"
  | typeNotFound => "E2011"
  | hostFailure => "E2012"
  | callDepth => "E2013"
  | expiredScope => "E2014"
  | missingColumn => "E2015"

instance : ToString ErrorCode := ⟨text⟩

/-- The code with the given written form. -/
def ofString? (s : String) : Option ErrorCode :=
  all.find? (·.text == s)

/-- The stage that finds faults of this kind. -/
def stage : ErrorCode → Stage
  | unterminatedString | unexpectedCharacter | numberOutOfRange => .lexing
  | unexpectedToken | expectedExpression | unclosedBlock | expectedIdentifier | invalidAssignmentTarget
  | missingFunctionBody | unsupportedConstruct => .parsing
  | _ => .evaluation

end ErrorCode

/-- How grave a diagnostic is. -/
inductive Severity
  | error | warning
deriving DecidableEq, Repr

namespace Severity

/-- The word that opens a diagnostic. -/
def text : Severity → String
  | error => "error"
  | warning => "warning"

instance : ToString Severity := ⟨text⟩

end Severity

/-- A report of one fault. -/
structure Diagnostic where
  severity : Severity
  code : ErrorCode
  message : String
  position : Position
  notes : List String
deriving DecidableEq, Repr

namespace Diagnostic

/-- An error with no notes. -/
def error (code : ErrorCode) (message : String) (position : Position) : Diagnostic :=
  ⟨.error, code, message, position, []⟩

/-- Whether the diagnostic is an error, not a warning. -/
def isError (d : Diagnostic) : Bool := d.severity == .error

/-- The report without an excerpt. -/
protected def toString (d : Diagnostic) : String :=
  toString d.severity ++ "[" ++ toString d.code ++ "]: " ++ d.message
    ++ (if d.position.isSome then "\n  --> " ++ toString d.position else "")
    ++ String.join (d.notes.map ("\n  = note: " ++ ·))

instance : ToString Diagnostic := ⟨Diagnostic.toString⟩

/-- A line without the carriage return that ends it, if one does. -/
def withoutReturn (line : List Char) : List Char :=
  if line.getLast? = some '\r' then line.dropLast else line

/-- The lines of a text: one more than its newlines. -/
def lines (source : String) : List (List Char) :=
  source.toList.splitOn '\n'

/-- Spaces before the caret. On the first line they are the column; on a later one the newline holds column 0, so
there is one less. There are at most as many as the line has bytes. -/
def indent (position : Position) (line : List Char) : Nat :=
  min (if position.line ≤ 1 then position.column else position.column - 1) (String.ofList line).utf8ByteSize

/-- The quoted line with a gutter that holds its number, and the caret under it. -/
def excerpt (position : Position) (line : List Char) : String :=
  let gutter := toString position.line
  let margin := String.ofList (List.replicate gutter.length ' ')
  let caret := String.ofList (List.replicate (indent position line) ' ' ++ ['^'])
  "\n" ++ margin ++ " |\n" ++ gutter ++ " | " ++ String.ofList line ++ "\n" ++ margin ++ " | " ++ caret

/-- The report against a text: with an excerpt if the position names a line of it. -/
def render (d : Diagnostic) (source : String) : String :=
  if d.position.isSome then
    match (lines source)[d.position.line - 1]? with
    | some line => toString d ++ excerpt d.position (withoutReturn line)
    | none => toString d
  else toString d

end Diagnostic

end QueryTemplate
