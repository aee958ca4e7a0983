import QueryTemplate.Host.Heap
import QueryTemplate.Proofs.Bindings

/-!
# Objects that match

Two objects match if they have the same type and their fields hold values that a relation allows side by side. Stores
into the same field keep them matching, and references to matching objects see matching fields.
-/

namespace QueryTemplate

variable {S T : Value → Value → Prop}

/-- Objects of the same type with related fields. -/
structure HostObject.Matched (S : Value → Value → Prop) (x y : HostObject) : Prop where
  type : x.type = y.type
  fields : x.fields.Matched S y.fields

namespace HostObject.Matched

variable {x y : HostObject} {v w : Value}

theorem mono (hS : ∀ v w, S v w → T v w) (h : x.Matched S y) : x.Matched T y := ⟨h.type, h.fields.mono hS⟩

/-- New objects hold nothing but null. -/
theorem new (hnull : S .null .null) (t : HostType) : (HostObject.new t).Matched S (.new t) := by
  refine ⟨rfl, .insertAll (List.forall₂_same.2 fun x hx => ⟨rfl, ?_⟩) .empty⟩
  obtain ⟨f, -, rfl⟩ := List.mem_map.1 hx
  exact hnull

theorem set? (h : x.Matched S y) (field : String) (hv : S v w) :
    Option.Rel (HostObject.Matched S) (x.set? field v) (y.set? field w) := by
  have hcontains := h.fields.contains field
  unfold HostObject.set?
  split
  next hx =>
    rw [dif_pos (hcontains ▸ hx)]
    exact .some ⟨h.type, h.fields.insert field hv⟩
  next hx =>
    rw [dif_neg (hcontains ▸ hx)]
    exact .none

end HostObject.Matched

namespace Heap

variable {h k : Heap} {t : HostType} {i j : Nat}

/-- What references of one type are to matches if what lies at their places does. -/
theorem matched_object (hnull : S .null .null)
    (hk : Option.Rel (HostObject.Matched S) h.objects[i]? k.objects[j]?) :
    (h.object ⟨t, i⟩).Matched S (k.object ⟨t, j⟩) := by
  unfold object
  generalize h.objects[i]? = x at hk
  generalize k.objects[j]? = y at hk
  cases hk with
  | none => exact .new hnull t
  | some hxy =>
    simp only [hxy.type]
    split
    · exact hxy
    · exact .new hnull t

/-- Just the declared fields can be read. -/
theorem get?_eq_none_iff {o : ObjectRef} {field : String} : h.get? o field = none ↔ field ∉ o.type.fields := by
  rw [← isSome_get?_iff (h := h), Bool.not_eq_true, Option.isSome_eq_false_iff, Option.isNone_iff_eq_none]

/-- Just the declared fields can be stored into. -/
theorem set?_eq_none_iff {o : ObjectRef} {field : String} {v : Value} :
    h.set? o field v = none ↔ field ∉ o.type.fields := by
  rw [← h.type_object o, ← (h.object o).declared field, set?, Option.map_eq_none_iff, HostObject.set?]
  split
  next hfield => exact iff_of_false nofun (not_not_intro hfield)
  next hfield => exact iff_of_true rfl hfield

end Heap

end QueryTemplate
