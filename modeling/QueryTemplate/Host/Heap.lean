import QueryTemplate.Value.Basic

/-!
# The heap of host objects

An object has the fields that its type declares, all null at first. Copies of a reference share the fields.
-/

namespace QueryTemplate

/-- A host object. -/
structure HostObject where
  type : HostType
  fields : Bindings Value
  /-- The fields are those that the type declares. -/
  declared : ∀ field, fields.contains field = true ↔ field ∈ type.fields

namespace HostObject

/-- A new object of a type. -/
def new (t : HostType) : HostObject where
  type := t
  fields := Bindings.empty.insertAll (t.fields.map fun f => (f, .null))
  declared field := by
    rw [Bindings.contains_insertAll, List.map_map, Bindings.contains_empty]
    simp [Function.comp_def]

/-- The value of a field, if the object has it. -/
def get? (x : HostObject) (field : String) : Option Value := x.fields.find? field

/-- Store into a field, if the object has it. -/
def set? (x : HostObject) (field : String) (value : Value) : Option HostObject :=
  if h : x.fields.contains field = true then
    some
      { x with
        fields := x.fields.insert field value
        declared := fun f => (Bindings.contains_insert_of_contains h f).trans (x.declared f) }
  else none

end HostObject

/-- The objects, by their place. -/
structure Heap where
  objects : Array HostObject

namespace Heap

/-- No objects. -/
def empty : Heap := ⟨#[]⟩

/-- A new object of a type. -/
def allocate (h : Heap) (t : HostType) : ObjectRef × Heap := (⟨t, h.objects.size⟩, ⟨h.objects.push (.new t)⟩)

/-- The object of a reference. One to which no object has been made stands for a new one. -/
def object (h : Heap) (o : ObjectRef) : HostObject :=
  match h.objects[o.index]? with
  | some x => if x.type = o.type then x else .new o.type
  | none => .new o.type

/-- The value of a field, if the object has it. -/
def get? (h : Heap) (o : ObjectRef) (field : String) : Option Value := (h.object o).get? field

/-- Store into a field, if the object has it. -/
def set? (h : Heap) (o : ObjectRef) (field : String) (value : Value) : Option Heap :=
  ((h.object o).set? field value).map fun x => ⟨h.objects.setIfInBounds o.index x⟩

/-- A reference is to an object of its type. -/
theorem type_object (h : Heap) (o : ObjectRef) : (h.object o).type = o.type := by
  unfold object
  split
  · split
    · assumption
    · rfl
  · rfl

/-- An object has the fields that its type declares, and no others. -/
theorem isSome_get?_iff {h : Heap} {o : ObjectRef} {field : String} :
    (h.get? o field).isSome = true ↔ field ∈ o.type.fields := by
  rw [← h.type_object o]
  exact (h.object o).declared field

end Heap

end QueryTemplate
