/-!
# Quoted text

A string in a template stands between double quotes. A backslash gives the character after it a meaning of its
own: `t`, `n` and `r` are tab, newline and carriage return, and any other character stands for itself.
-/

namespace QueryTemplate.Quoted

/-- The character that a backslash before `c` makes of it. -/
def escaped (c : Char) : Char :=
  match c with
  | 't' => '\t'
  | 'n' => '\n'
  | 'r' => '\r'
  | _ => c

/-- Undo the escapes of a quoted text. A backslash at its very end stands for itself. -/
def decode : List Char → List Char
  | [] => []
  | ['\\'] => ['\\']
  | '\\' :: c :: cs => escaped c :: decode cs
  | c :: cs => c :: decode cs

/-- How one character is written between quotes. -/
def encodeChar (c : Char) : List Char :=
  match c with
  | '\\' => ['\\', '\\']
  | '"' => ['\\', '"']
  | '\n' => ['\\', 'n']
  | '\t' => ['\\', 't']
  | '\r' => ['\\', 'r']
  | _ => [c]

/-- A text as it is written between quotes. -/
def encode (cs : List Char) : List Char :=
  cs.flatMap encodeChar

/-- Undo the escapes of a quoted text. -/
def unescape (text : String) : String :=
  String.ofList (decode text.toList)

/-- The string literal that stands for `text`. -/
def quote (text : String) : String :=
  String.ofList ('"' :: encode text.toList ++ ['"'])

end QueryTemplate.Quoted
