import QueryTemplate.Host.Registry

/-!
# Host types in words

A one-line description of a registry and of a host type, for whoever sets templates up. Names stand between quotes,
with escapes for the characters that would not show.
-/

namespace QueryTemplate.Description

/-- How one character of a name is written between quotes. -/
def charText (c : Char) : List Char :=
  match c with
  | '"' => ['\\', '"']
  | '\\' => ['\\', '\\']
  | '\n' => ['\\', 'n']
  | '\t' => ['\\', 't']
  | '\r' => ['\\', 'r']
  | c =>
    if c.toNat = 0 then ['\\', '0']
    else if c.toNat < 32 ∨ c.toNat = 127 then "\\u\x7b".toList ++ Nat.toDigits 16 c.toNat ++ "\x7d".toList
    else [c]

/-- A name between quotes. -/
def nameText (name : String) : String := String.ofList ('"' :: name.toList.flatMap charText ++ ['"'])

/-- Names in brackets. -/
def namesText (names : List String) : String := "[" ++ ", ".intercalate (names.map nameText) ++ "]"

/-- What has a heading and labelled parts. -/
def partsText (heading : String) (parts : List (String × String)) : String :=
  heading ++ " \x7b " ++ ", ".intercalate (parts.map fun (label, text) => label ++ ": " ++ text) ++ " \x7d"

end QueryTemplate.Description

namespace QueryTemplate

open Description

/-- A host type: its path, its fields, how many constructors it has, and the names of its methods. -/
def HostType.describe (t : HostType) : String :=
  partsText "HostType"
    [("path", nameText t.path), ("fields", namesText t.fields), ("constructors", toString t.constructors.length),
      ("methods", namesText (t.methods.map Method.name))]

/-- A registry: the paths of its types. -/
def Registry.describe (r : Registry) : String := partsText "HostRegistry" [("types", namesText r.paths)]

end QueryTemplate
