import QueryTemplate.Token.Basic

/-!
# Cursors

A cursor stands before a token of a list. Past the end of the list it reads the end-of-input token, and it never
moves past a token of that kind.
-/

namespace QueryTemplate

/-- A place between the tokens of a list. -/
structure Cursor where
  /-- The tokens already passed, the latest first. -/
  passed : List Token
  /-- The tokens still ahead. -/
  ahead : List Token

namespace Cursor

/-- Before the first token. -/
def ofList (tokens : List Token) : Cursor := ⟨[], tokens⟩

/-- The number of tokens passed. -/
def index (c : Cursor) : Nat := c.passed.length

/-- The number of tokens ahead. -/
def remaining (c : Cursor) : Nat := c.ahead.length

/-- The token ahead. -/
def current (c : Cursor) : Token := c.ahead.headD .endOfInput

/-- The kind of the token ahead. -/
def kind (c : Cursor) : TokenKind := c.current.kind

/-- The kind of the token `n` places after the one ahead. -/
def peek (c : Cursor) (n : Nat) : TokenKind := (c.ahead[n]?.map Token.kind).getD .endOfInput

/-- Whether nothing is left to read. -/
def atEnd (c : Cursor) : Bool := c.kind == .endOfInput

/-- Pass the token ahead, unless it is the end of input. -/
def advance (c : Cursor) : Cursor :=
  match c.ahead with
  | [] => c
  | t :: ts => if t.kind = .endOfInput then c else ⟨t :: c.passed, ts⟩

/-- Pass the token ahead if it has the given kind. -/
def eat? (c : Cursor) (kind : TokenKind) : Option Cursor :=
  if c.kind = kind then some c.advance else none

/-- The place of a fault at the token ahead. The end of input has no place, so there it is that of the token
before, if there is one. -/
def faultPosition (c : Cursor) : Position :=
  match c.kind, c.passed with
  | .endOfInput, t :: _ => t.position
  | _, _ => c.current.position

theorem remaining_advance_le (c : Cursor) : c.advance.remaining ≤ c.remaining := by
  unfold advance remaining
  split
  · simp
  · split
    · simp
    · rename_i h _; simp [h]

/-- Passing a token brings the end nearer. -/
theorem remaining_advance_lt {c : Cursor} (h : c.kind ≠ .endOfInput) : c.advance.remaining < c.remaining := by
  unfold kind current at h
  unfold advance remaining
  split
  next he => simp [he, Token.endOfInput] at h
  next t ts he =>
    simp only [he, List.headD_cons] at h
    simp [h, he]

theorem remaining_advance_lt_of_identifier {c : Cursor} (h : c.kind = .identifier) :
    c.advance.remaining < c.remaining :=
  remaining_advance_lt (by rw [h]; decide)

theorem remaining_advance_lt_of_leftParen {c : Cursor} (h : c.kind = .leftParen) :
    c.advance.remaining < c.remaining :=
  remaining_advance_lt (by rw [h]; decide)

theorem remaining_advance_lt_of_rightParen {c : Cursor} (h : c.kind = .rightParen) :
    c.advance.remaining < c.remaining :=
  remaining_advance_lt (by rw [h]; decide)

/-- Passing one more token keeps a cursor behind which the end is nearer. -/
theorem remaining_advance_lt_trans {c d : Cursor} (h : d.remaining < c.remaining) :
    d.advance.remaining < c.remaining :=
  Nat.lt_of_le_of_lt d.remaining_advance_le h

theorem remaining_advance_le_trans {c d : Cursor} (h : d.remaining < c.remaining) :
    d.advance.remaining ≤ c.remaining :=
  Nat.le_of_lt (remaining_advance_lt_trans h)

theorem remaining_le_of_lt {c d : Cursor} (h : d.remaining < c.remaining) : d.remaining ≤ c.remaining :=
  Nat.le_of_lt h

end Cursor

end QueryTemplate
