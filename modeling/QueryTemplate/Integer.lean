/-!
# Integers in bits

Which integers a signed representation of a given width holds.
-/

namespace QueryTemplate

/-- Whether an integer has a signed representation of `bits` bits. -/
def fitsInto (bits : Nat) (n : Int) : Bool :=
  let bound := Nat.pow 2 (bits - 1)
  (-bound ≤ n && n < bound)

theorem fitsInto_iff {bits : Nat} {n : Int} :
    fitsInto bits n = true ↔ -Nat.pow 2 (bits - 1) ≤ n ∧ n < Nat.pow 2 (bits - 1) := by
  simp [fitsInto]

end QueryTemplate
