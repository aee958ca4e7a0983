import QueryTemplate.Token.Cursor
import QueryTemplate.Tree.ParseError
import QueryTemplate.Tree.Basic

/-!
# Reading with a cursor

What reading yields: a value and a cursor that is nearer to the end, or a fault. That the cursor moves on is part of
the type, so that the grammar can be read by recursion on the tokens ahead.
-/

namespace QueryTemplate

/-- A value with a cursor that has fewer than `bound` tokens ahead, or a fault. -/
inductive Parsed (α : Type) (bound : Nat)
  | ok (value : α) (next : Cursor) (nearer : next.remaining < bound)
  | error (e : ParseError)

namespace Parsed

variable {α β : Type} {m n : Nat}

/-- Go on with the value and the cursor after it. -/
@[inline] def andThen (p : Parsed α m) (f : (value : α) → (next : Cursor) → next.remaining < m → Parsed β n) :
    Parsed β n :=
  match p with
  | ok value next nearer => f value next nearer
  | error e => error e

/-- Change the value. -/
@[inline] def map (p : Parsed α m) (f : α → β) (h : m ≤ n) : Parsed β n :=
  p.andThen fun value next nearer => ok (f value) next (Nat.lt_of_lt_of_le nearer h)

end Parsed

namespace Cursor

/-- A fault at the token ahead. -/
def fault (c : Cursor) (f : ParseFault) : ParseError := ⟨f, c.faultPosition⟩

/-- Pass a semicolon if one is ahead. -/
def skipSemicolon (c : Cursor) : Cursor :=
  if c.kind = .semicolon then c.advance else c

theorem remaining_skipSemicolon_le (c : Cursor) : c.skipSemicolon.remaining ≤ c.remaining := by
  unfold skipSemicolon
  split
  · exact c.remaining_advance_le
  · exact Nat.le_refl _

/-- Pass the punctuation that has to be ahead. -/
def expect (what : Landmark) (c : Cursor) : Parsed Unit c.remaining :=
  if h : c.kind = what.kind then
    .ok () c.advance (remaining_advance_lt (by rw [h]; cases what <;> decide))
  else .error (c.fault (.expected what c.kind))

/-- The name token ahead as an identifier. -/
def ident (c : Cursor) : Ident := ⟨c.current.text, c.current.position⟩

/-- Pass a name. -/
def expectName (role : NameRole) (c : Cursor) : Parsed Ident c.remaining :=
  if h : c.kind = .identifier then
    .ok c.ident c.advance (remaining_advance_lt_of_identifier h)
  else .error (c.fault (.expectedName role c.kind))

end Cursor

end QueryTemplate
