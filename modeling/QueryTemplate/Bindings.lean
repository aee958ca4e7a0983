/-!
# Bindings

Names bound to values, in the order in which they were first bound. A name is bound once.
-/

namespace QueryTemplate

/-- Names bound to values. -/
structure Bindings (α : Type) where
  entries : List (String × α)

namespace Bindings

variable {α : Type}

/-- No names. -/
def empty : Bindings α := ⟨[]⟩

/-- The bound names. -/
def names (b : Bindings α) : List String := b.entries.map Prod.fst

/-- The value of a name. -/
def find? (b : Bindings α) (name : String) : Option α := b.entries.lookup name

/-- Whether a name is bound. -/
def contains (b : Bindings α) (name : String) : Bool := (b.find? name).isSome

/-- The entries with a new value for a name, which is added at the end if it is not among them. -/
def put (name : String) (value : α) : List (String × α) → List (String × α)
  | [] => [(name, value)]
  | (n, v) :: rest => if name == n then (n, value) :: rest else (n, v) :: put name value rest

/-- Bind a name, in place of any value that it is bound to. -/
def insert (b : Bindings α) (name : String) (value : α) : Bindings α := ⟨put name value b.entries⟩

/-- Bind names in order. -/
def insertAll (b : Bindings α) (entries : List (String × α)) : Bindings α :=
  entries.foldl (fun b (name, value) => b.insert name value) b

/-- Give a bound name a new value. -/
def replace? (b : Bindings α) (name : String) (value : α) : Option (Bindings α) :=
  if b.contains name then some (b.insert name value) else none

theorem lookup_cons_of_ne {name other : String} (value : α) (entries : List (String × α)) (h : other ≠ name) :
    ((name, value) :: entries).lookup other = entries.lookup other := by
  rw [List.lookup_cons, beq_false_of_ne h]

theorem lookup_put (name other : String) (value : α) (entries : List (String × α)) :
    (put name value entries).lookup other = if other = name then some value else entries.lookup other := by
  induction entries with
  | nil => by_cases h : other = name <;> simp [put, lookup_cons_of_ne, h]
  | cons e rest ih =>
    obtain ⟨n, v⟩ := e
    by_cases hn : name = n
    · subst hn
      by_cases h : other = name <;> simp [put, lookup_cons_of_ne, h]
    · by_cases ho : other = n
      · subst ho
        simp [put, hn, Ne.symm hn]
      · simp [put, lookup_cons_of_ne, hn, ho, ih]

/-- After binding a name, it has the new value and all other names have theirs. -/
theorem find?_insert (b : Bindings α) (name other : String) (value : α) :
    (b.insert name value).find? other = if other = name then some value else b.find? other :=
  lookup_put name other value b.entries

theorem contains_empty (name : String) : (empty : Bindings α).contains name = false := rfl

theorem contains_insert (b : Bindings α) (name other : String) (value : α) :
    (b.insert name value).contains other = true ↔ other = name ∨ b.contains other = true := by
  unfold contains
  rw [find?_insert]
  split <;> simp [*]

/-- A new value of a bound name binds no new name. -/
theorem contains_insert_of_contains {b : Bindings α} {name : String} {value : α} (h : b.contains name = true)
    (other : String) : (b.insert name value).contains other = true ↔ b.contains other = true := by
  rw [contains_insert]
  exact ⟨fun ho => ho.elim (fun he => he ▸ h) id, .inr⟩

theorem contains_insertAll (b : Bindings α) (entries : List (String × α)) (name : String) :
    (b.insertAll entries).contains name = true ↔ name ∈ entries.map Prod.fst ∨ b.contains name = true := by
  induction entries generalizing b with
  | nil => simp [insertAll]
  | cons e entries ih =>
    refine (ih (b.insert e.1 e.2)).trans ?_
    rw [contains_insert, List.map_cons, List.mem_cons, or_assoc, or_left_comm]

end Bindings

end QueryTemplate
