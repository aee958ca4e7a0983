/-!
# Places in a template

A place is a line and a column. Lines count from one; columns count bytes. The pair `0:0` names no place and
stands where a token or an error has none.
-/

namespace QueryTemplate

/-- A line and a column of a template. -/
structure Position where
  line : Nat
  column : Nat
deriving DecidableEq, Repr, Inhabited

namespace Position

/-- The pair that names no place. -/
def nowhere : Position := ⟨0, 0⟩

/-- Written `line:column`. -/
protected def toString (p : Position) : String :=
  toString p.line ++ ":" ++ toString p.column

instance : ToString Position := ⟨Position.toString⟩

/-- Places come line by line, and on a line column by column. -/
instance : LT Position := ⟨fun p q => p.line < q.line ∨ p.line = q.line ∧ p.column < q.column⟩

instance (p q : Position) : Decidable (p < q) :=
  inferInstanceAs (Decidable (p.line < q.line ∨ p.line = q.line ∧ p.column < q.column))

theorem lt_iff {p q : Position} : p < q ↔ p.line < q.line ∨ p.line = q.line ∧ p.column < q.column := Iff.rfl

theorem ne_of_lt {p q : Position} (h : p < q) : p ≠ q := by
  rintro rfl
  rcases lt_iff.1 h with h | ⟨-, h⟩ <;> exact absurd h (Nat.lt_irrefl _)

/-- Whether the position names a place. -/
def isSome (p : Position) : Bool := p != nowhere

/-- ` at line:column`, or nothing when the position names no place. -/
def suffix (p : Position) : String :=
  if p.isSome then " at " ++ toString p else ""

end Position

end QueryTemplate
