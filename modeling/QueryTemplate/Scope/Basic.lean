import QueryTemplate.Bindings

/-!
# Scopes

Scopes hold the names of one block or call and know the scope around them. They live in a store that uses the slots
of released scopes again. A slot counts the scopes that have been released in it, and a handle names a slot and the
count at which its scope was opened, so that a handle of a released scope does not reach the scope that has taken its
slot.
-/

namespace QueryTemplate

/-- A handle of a scope. -/
structure ScopeId where
  /-- The slot of the scope. It is less than 2³² unless as many scopes are live at once. -/
  slot : Nat
  /-- The generation of the slot when the scope was opened. -/
  generation : UInt32
deriving DecidableEq, Repr

/-- The names of one block or call. -/
structure Scope (α : Type) where
  /-- The scope around it. Only the global scope has none. -/
  parent : Option ScopeId
  bindings : Bindings α

/-- A place for one scope at a time. -/
structure Slot (α : Type) where
  /-- The number of scopes that have been released here. It wraps around. -/
  generation : UInt32
  /-- The scope that is here now, if the slot is taken. -/
  scope : Option (Scope α)

/-- A store of scopes. -/
structure ScopeStore (α : Type) where
  slots : Array (Slot α)
  /-- The slots that are not taken, the last released first. -/
  free : List Nat
  /-- The number of scopes opened so far. No answer of the store depends on it. -/
  opened : Nat

namespace ScopeStore

variable {α : Type}

/-- The handle of the global scope. -/
def global : ScopeId := ⟨0, 0⟩

/-- The global scope alone. -/
def initial : ScopeStore α := ⟨#[⟨0, some ⟨none, .empty⟩⟩], [], 0⟩

/-- The scope of a handle, if it is live. -/
def scope? (st : ScopeStore α) (id : ScopeId) : Option (Scope α) :=
  match st.slots[id.slot]? with
  | some s => if s.generation = id.generation then s.scope else none
  | none => none

/-- Whether the scope of a handle has not been released. -/
def isLive (st : ScopeStore α) (id : ScopeId) : Bool := (st.scope? id).isSome

/-- The number of live scopes. -/
def liveCount (st : ScopeStore α) : Nat := st.slots.countP fun s => s.scope.isSome

/-- The generation of a slot; that of a slot which has never been used is the first. -/
def generation (st : ScopeStore α) (slot : Nat) : UInt32 :=
  match st.slots[slot]? with
  | some s => s.generation
  | none => 0

/-- Put a scope into the slot of its handle. -/
def store (st : ScopeStore α) (id : ScopeId) (s : Scope α) : ScopeStore α :=
  { st with slots := st.slots.setIfInBounds id.slot ⟨id.generation, some s⟩ }

/-- Open an empty scope inside another one. -/
def push (st : ScopeStore α) (parent : ScopeId) : ScopeId × ScopeStore α :=
  let s : Scope α := ⟨some parent, .empty⟩
  match st.free with
  | slot :: free =>
    let id : ScopeId := ⟨slot, st.generation slot⟩
    (id, { st.store id s with free := free, opened := st.opened + 1 })
  | [] => (⟨st.slots.size, 0⟩, { st with slots := st.slots.push ⟨0, some s⟩, opened := st.opened + 1 })

/-- Release a scope. Neither the global scope nor one that has been released already can be released. -/
def release (st : ScopeStore α) (id : ScopeId) : ScopeStore α :=
  if id = global ∨ st.isLive id = false then st
  else { st with slots := st.slots.setIfInBounds id.slot ⟨id.generation + 1, none⟩, free := id.slot :: st.free }

/-- Bind a name in a scope. In a released scope this does nothing. -/
def define (st : ScopeStore α) (id : ScopeId) (name : String) (value : α) : ScopeStore α :=
  match st.scope? id with
  | some s => st.store id { s with bindings := s.bindings.insert name value }
  | none => st

/-- Bind names in order. -/
def defineAll (st : ScopeStore α) (id : ScopeId) (entries : List (String × α)) : ScopeStore α :=
  entries.foldl (fun st (name, value) => st.define id name value) st

/-- The innermost scope that binds a name among so many from the given one outward. A released scope ends the walk. -/
def binderWithin (st : ScopeStore α) (name : String) : (count : Nat) → ScopeId → Option (ScopeId × Scope α)
  | 0, _ => none
  | count + 1, id =>
    match st.scope? id with
    | none => none
    | some s =>
      if s.bindings.contains name then some (id, s)
      else
        match s.parent with
        | some parent => st.binderWithin name count parent
        | none => none

/-- The innermost live scope, from the given one outward, that binds a name. No walk is longer than there are slots. -/
def binder? (st : ScopeStore α) (id : ScopeId) (name : String) : Option (ScopeId × Scope α) :=
  st.binderWithin name st.slots.size id

/-- The value of a name, from a scope outward. -/
def lookup (st : ScopeStore α) (id : ScopeId) (name : String) : Option α := do
  let (_, s) ← st.binder? id name
  s.bindings.find? name

/-- Give a name a new value in the innermost scope that binds it, if one does. -/
def assign? (st : ScopeStore α) (id : ScopeId) (name : String) (value : α) : Option (ScopeStore α) := do
  let (owner, s) ← st.binder? id name
  return st.store owner { s with bindings := s.bindings.insert name value }

end ScopeStore

end QueryTemplate
