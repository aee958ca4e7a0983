import QueryTemplate.Token.Lexeme
import QueryTemplate.LineIndex
import QueryTemplate.Diagnostic
import QueryTemplate.Digits
import QueryTemplate.Integer

/-!
# From text to tokens

`tokenize` cuts a text into lexemes, drops blanks and comments, and turns every other lexeme into a token that is
placed at its first byte. The first fault ends it.
-/

namespace QueryTemplate

/-- Why a text has no tokens. -/
inductive LexError
  /-- A string is not closed; the place is that of the last byte of the text. -/
  | unterminatedString (position : Position)
  | unexpectedCharacter (c : Char) (position : Position)
  /-- A decimal literal is too large for a number of 64 bits. -/
  | numberOutOfRange (position : Position)
deriving DecidableEq, Repr

namespace LexError

def position : LexError → Position
  | unterminatedString p | unexpectedCharacter _ p | numberOutOfRange p => p

def code : LexError → ErrorCode
  | unterminatedString _ => .unterminatedString
  | unexpectedCharacter .. => .unexpectedCharacter
  | numberOutOfRange _ => .numberOutOfRange

/-- The fault in words, without its place. -/
def description : LexError → String
  | unterminatedString _ => "unterminated string"
  | unexpectedCharacter c _ => "unexpected character '" ++ c.toString ++ "'"
  | numberOutOfRange _ => "number literal out of range"

def message (e : LexError) : String :=
  e.description ++ " at " ++ toString e.position

def diagnostic (e : LexError) : Diagnostic :=
  .error e.code e.description e.position

end LexError

/-- The number of 64 bits nearest to a decimal literal. -/
def decimalValue (whole fraction : List Char) : Float :=
  Float.ofScientific (digitsValue (whole ++ fraction)) true fraction.length

/-- The payload of an integer literal: a number if it fits into 64 bits, else its digits. -/
def integerPayload (digits : List Char) : Payload :=
  let n := digitsValue digits
  if fitsInto 64 n then .integer (Int64.ofNat n) else .bigInteger (String.ofList digits)

namespace Lexeme

/-- What becomes of a lexeme. -/
inductive Meaning
  | skipped
  | token (kind : TokenKind) (payload : Payload)
  /-- The number is infinite. -/
  | outOfRange
deriving DecidableEq

/-- The token that a lexeme stands for. -/
def meaning : Lexeme → Meaning
  | blank _ | comment _ => .skipped
  | integer digits => .token .number (integerPayload digits)
  | decimal whole fraction =>
    let x := decimalValue whole fraction
    if x.isFinite then .token .number (.decimal x) else .outOfRange
  | quoted body => .token .string (.text (String.ofList (Quoted.decode body)))
  | word cs =>
    let name := String.ofList cs
    match TokenKind.keyword? name with
    | some kind => .token kind .empty
    | none => .token .identifier (.text name)
  | column cs => .token .identifier (.text (String.ofList ('#' :: cs)))
  | operator kind _ => .token kind .empty

end Lexeme

/-- The tokens of a text that starts at byte `offset` of the text with the given line index. -/
def tokensFrom (index : LineIndex) (offset : Nat) : List Char → Except LexError (List Token)
  | [] => .ok [Token.endOfInput]
  | c :: cs =>
    match h : Lexeme.front c cs with
    | .lexeme l rest =>
      have := Lexeme.length_rest_lt h
      match l.meaning with
      | .skipped => tokensFrom index (offset + l.size) rest
      | .outOfRange => .error (.numberOutOfRange (index.position offset))
      | .token kind payload =>
        (tokensFrom index (offset + l.size) rest).map (⟨kind, payload, index.position offset⟩ :: ·)
    | .openQuote => .error (.unterminatedString index.lastPosition)
    | .stray c => .error (.unexpectedCharacter c (index.position offset))
termination_by cs => cs.length
decreasing_by all_goals assumption

/-- The tokens of a text. -/
def tokenize (source : String) : Except LexError (List Token) :=
  tokensFrom (.ofString source) 0 source.toList

end QueryTemplate
