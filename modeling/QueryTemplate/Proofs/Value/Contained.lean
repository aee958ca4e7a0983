import QueryTemplate.Proofs.Value.Linked

/-!
# What values contain

A value contains itself and, if it is an object, what its fields contain (`Heap.Contains`). A run that is given some
values comes to no others than what these contain and what it makes itself, if bodies of host types look at no objects
but those that they are given and their own ones (`Registry.Confined`). The link of such a run leaves out the rest of
the heap (`Heap.linked_reached`).
-/

namespace QueryTemplate

/-- The same objects, and no others than these; no closures but these. -/
def Link.among (functions mappers : Closure → Prop) (objects : Nat → Prop) : Link where
  function := functions
  mapper := mappers
  place i j := i = j ∧ objects i
  left_unique h h' := h.1.trans h'.1.symm
  right_unique h h' := h.1.symm.trans h'.1
  later := 0
  before := ""

/-- Bodies of host types look at no objects but those that they are given, those found in such, and those that the types
keep for themselves. They make up no closures. -/
def Registry.Confined (own : ObjectRef → Prop) (types : Registry) : Prop :=
  ∀ functions mappers objects, (∀ o, own o → objects o.index) → types.Links (.among functions mappers objects)

namespace Heap

/-- The values in a value: itself, and those in the fields of an object in it. -/
inductive Contains (h : Heap) (v : Value) : Value → Prop
  | self : Contains h v v
  | field {o : ObjectRef} {y : HostObject} {x : String × Value} (ho : Contains h v (.object o))
    (hy : h.objects[o.index]? = some y) (hx : x ∈ y.fields.entries) : Contains h v x.2

/-- The places of objects in some values, and those where no objects are yet. -/
def reached (h : Heap) (roots : Value → Prop) (i : Nat) : Prop :=
  h.objects.size ≤ i ∨ ∃ v t, roots v ∧ h.Contains v (.object ⟨t, i⟩)

variable {h : Heap} {roots : Value → Prop} {functions mappers : Closure → Prop}

theorem Contains.linked {v w : Value} (hv : roots v) (hw : h.Contains v w)
    (hf : ∀ f, h.Contains v (.function f) → functions f) (hm : ∀ f, h.Contains v (.mapper f) → mappers f) :
    w.Linked (.among functions mappers (h.reached roots)) w := by
  cases w with
  | function f => exact .function (hf f hw) rfl
  | mapper f => exact .mapper (hm f hw) rfl
  | object o => exact .object ⟨rfl, .inr ⟨v, o.type, hv, hw⟩⟩
  | _ => exact .plain rfl

/-- The part of a heap that some values reach holds no closures but those in these values. -/
theorem linked_reached (hf : ∀ v, roots v → ∀ f, h.Contains v (.function f) → functions f)
    (hm : ∀ v, roots v → ∀ f, h.Contains v (.mapper f) → mappers f) :
    h.Linked (.among functions mappers (h.reached roots)) h := by
  refine ⟨?_, fun n => ⟨rfl, .inl (Nat.le_add_right _ _)⟩⟩
  rintro i j ⟨rfl, hi⟩
  rcases hi with hi | ⟨v, t, hv, hc⟩
  · rw [Array.getElem?_eq_none hi]
    exact .none
  · cases hy : h.objects[i]? with
    | none => exact .none
    | some y =>
      refine .some ⟨rfl, List.forall₂_same.2 fun x hx => ⟨rfl, ?_⟩⟩
      exact (hc.field hy hx).linked hv (hf v hv) (hm v hv)

end Heap

end QueryTemplate
