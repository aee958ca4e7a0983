import QueryTemplate.Proofs.Bindings
import QueryTemplate.Proofs.Scope.Store

/-!
# Stores of scopes that match

Two stores with the same scopes in the same slots, in which the same names are bound to related values. Every operation
of the store that is done on both keeps them matching, with the same handles.
-/

namespace QueryTemplate

variable {α β : Type}

/-- Scopes inside the same one, in which the same names are bound to related values. -/
structure Scope.Matched (S : α → β → Prop) (s : Scope α) (t : Scope β) : Prop where
  parent : s.parent = t.parent
  bindings : s.bindings.Matched S t.bindings

theorem Scope.Matched.insert {S : α → β → Prop} {s : Scope α} {t : Scope β} (h : s.Matched S t) (name : String) {v : α}
    {w : β} (hv : S v w) : Scope.Matched S { s with bindings := s.bindings.insert name v }
      { t with bindings := t.bindings.insert name w } := ⟨h.parent, h.bindings.insert name hv⟩

structure Slot.Matched (S : α → β → Prop) (s : Slot α) (t : Slot β) : Prop where
  generation : s.generation = t.generation
  scope : Option.Rel (Scope.Matched S) s.scope t.scope

namespace ScopeStore

/-- Stores with the same scopes in the same slots. -/
structure Matched (S : α → β → Prop) (st : ScopeStore α) (st' : ScopeStore β) : Prop where
  size : st.slots.size = st'.slots.size
  slot : ∀ i : Nat, Option.Rel (Slot.Matched S) st.slots[i]? st'.slots[i]?
  free : st.free = st'.free
  opened : st.opened = st'.opened

namespace Matched

variable {S : α → β → Prop} {st : ScopeStore α} {st' : ScopeStore β} {s : Scope α} {t : Scope β}

theorem initial : Matched S .initial .initial := by
  refine ⟨rfl, fun i => ?_, rfl, rfl⟩
  cases i with
  | zero => exact .some ⟨rfl, .some ⟨rfl, .empty⟩⟩
  | succ i => exact .none

theorem scope? (h : st.Matched S st') (id : ScopeId) :
    Option.Rel (Scope.Matched S) (st.scope? id) (st'.scope? id) := by
  have hslot := h.slot id.slot
  unfold ScopeStore.scope?
  revert hslot
  generalize st.slots[id.slot]? = x
  generalize st'.slots[id.slot]? = y
  intro hslot
  cases hslot with
  | none => exact .none
  | @some a b hab =>
    simp only [hab.generation]
    split
    · exact hab.scope
    · exact .none

theorem isLive (h : st.Matched S st') (id : ScopeId) : st.isLive id = st'.isLive id := by
  have hs := h.scope? id
  unfold ScopeStore.isLive
  revert hs
  generalize st.scope? id = x
  generalize st'.scope? id = y
  intro hs
  cases hs <;> rfl

theorem generation (h : st.Matched S st') (slot : Nat) : st.generation slot = st'.generation slot := by
  have hslot := h.slot slot
  unfold ScopeStore.generation
  revert hslot
  generalize st.slots[slot]? = x
  generalize st'.slots[slot]? = y
  intro hslot
  cases hslot with
  | none => rfl
  | some hab => exact hab.generation

/-- Matching contents of one slot. -/
theorem slots_set (h : st.Matched S st') {a : Slot α} {b : Slot β} (hab : a.Matched S b) (slot i : Nat) :
    Option.Rel (Slot.Matched S) (st.slots.setIfInBounds slot a)[i]? (st'.slots.setIfInBounds slot b)[i]? := by
  rw [Array.getElem?_setIfInBounds, Array.getElem?_setIfInBounds, h.size]
  split
  · split
    · exact .some hab
    · exact .none
  · exact h.slot i

theorem store (h : st.Matched S st') (hs : s.Matched S t) (id : ScopeId) :
    (st.store id s).Matched S (st'.store id t) where
  size := by simpa [ScopeStore.store] using h.size
  slot := h.slots_set ⟨rfl, .some hs⟩ id.slot
  free := h.free
  opened := h.opened

theorem push (h : st.Matched S st') (parent : ScopeId) :
    (st.push parent).1 = (st'.push parent).1 ∧ (st.push parent).2.Matched S (st'.push parent).2 := by
  have hnew : Scope.Matched S (⟨some parent, .empty⟩ : Scope α) ⟨some parent, .empty⟩ := ⟨rfl, .empty⟩
  have hfree := h.free
  unfold ScopeStore.push
  cases hf : st.free with
  | nil =>
    simp only [← hfree, hf]
    refine ⟨by rw [h.size], ⟨by simp [h.size], fun i => ?_, rfl, by rw [h.opened]⟩⟩
    simp only [Array.getElem?_push, h.size]
    split
    · exact .some ⟨rfl, .some hnew⟩
    · exact h.slot i
  | cons slot free =>
    simp only [← hfree, hf, h.generation]
    have hstore := h.store hnew ⟨slot, st'.generation slot⟩
    exact ⟨trivial, ⟨hstore.size, hstore.slot, rfl, by rw [h.opened]⟩⟩

theorem release (h : st.Matched S st') (id : ScopeId) : (st.release id).Matched S (st'.release id) := by
  unfold ScopeStore.release
  rw [h.isLive]
  split
  · exact h
  · exact ⟨by simpa using h.size, h.slots_set ⟨rfl, .none⟩ id.slot, by rw [h.free], h.opened⟩

theorem define (h : st.Matched S st') (id : ScopeId) (name : String) {v : α} {w : β} (hv : S v w) :
    (st.define id name v).Matched S (st'.define id name w) := by
  have hs := h.scope? id
  unfold ScopeStore.define
  generalize st.scope? id = x at hs
  generalize st'.scope? id = y at hs
  cases hs with
  | none => exact h
  | some hst => exact h.store (hst.insert name hv) id

theorem defineAll (h : st.Matched S st') (id : ScopeId) {xs : List (String × α)} {ys : List (String × β)}
    (hs : List.Forall₂ (Bindings.MatchedEntry S) xs ys) : (st.defineAll id xs).Matched S (st'.defineAll id ys) := by
  induction hs generalizing st st' with
  | nil => exact h
  | @cons x y xs ys he _ ih =>
    obtain ⟨n, v⟩ := x
    obtain ⟨n', w⟩ := y
    obtain ⟨hn, hv⟩ := he
    cases hn
    exact ih (h.define id n hv)

/-- A name is found in the same scope of both stores. -/
theorem binder? (h : st.Matched S st') (id : ScopeId) (name : String) :
    Option.Rel (fun x y => x.1 = y.1 ∧ Scope.Matched S x.2 y.2) (st.binder? id name) (st'.binder? id name) := by
  have hwithin : ∀ count id, Option.Rel (fun x y => x.1 = y.1 ∧ Scope.Matched S x.2 y.2)
      (st.binderWithin name count id) (st'.binderWithin name count id) := by
    intro count
    induction count with
    | zero => exact fun id => .none
    | succ count ih =>
      intro id
      have hs := h.scope? id
      simp only [binderWithin]
      generalize st.scope? id = x at hs
      generalize st'.scope? id = y at hs
      cases hs with
      | none => exact .none
      | @some a b hab =>
        simp only [hab.bindings.contains, hab.parent]
        split
        · exact .some ⟨rfl, hab⟩
        · split
          · exact ih _
          · exact .none
  unfold ScopeStore.binder?
  rw [h.size]
  exact hwithin _ id

theorem lookup (h : st.Matched S st') (id : ScopeId) (name : String) :
    Option.Rel S (st.lookup id name) (st'.lookup id name) := by
  have hb := h.binder? id name
  unfold ScopeStore.lookup
  generalize st.binder? id name = x at hb
  generalize st'.binder? id name = y at hb
  cases hb with
  | none => exact .none
  | some hab => exact hab.2.bindings.find? name

theorem assign? (h : st.Matched S st') (id : ScopeId) (name : String) {v : α} {w : β} (hv : S v w) :
    Option.Rel (Matched S) (st.assign? id name v) (st'.assign? id name w) := by
  have hb := h.binder? id name
  unfold ScopeStore.assign?
  generalize st.binder? id name = x at hb
  generalize st'.binder? id name = y at hb
  cases hb with
  | none => exact .none
  | @some a b hab =>
    obtain ⟨owner, s⟩ := a
    obtain ⟨owner', s'⟩ := b
    obtain ⟨ho, hs⟩ := hab
    cases ho
    exact .some (h.store (hs.insert name hv) owner)

end Matched

end ScopeStore

end QueryTemplate
