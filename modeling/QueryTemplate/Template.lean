import QueryTemplate.Token.Lexer
import QueryTemplate.Tree.StmtParser

/-!
# Templates

A template is compiled from its text in two stages, each of which can find a fault.
-/

namespace QueryTemplate

/-- Why a text is no template. -/
inductive CompileError
  | lexing (e : LexError)
  | parsing (e : ParseError)
deriving DecidableEq, Repr

namespace CompileError

/-- The fault in words, with its place. -/
def message : CompileError → String
  | lexing e => e.message
  | parsing e => e.message

def diagnostic : CompileError → Diagnostic
  | lexing e => e.diagnostic
  | parsing e => e.diagnostic

end CompileError

/-- The tree of a text. -/
def compile (source : String) : Except CompileError Program :=
  match tokenize source with
  | .error e => .error (.lexing e)
  | .ok tokens =>
    match parse tokens with
    | .error e => .error (.parsing e)
    | .ok program => .ok program

end QueryTemplate
