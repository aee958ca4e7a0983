import Mathlib.Algebra.Group.Nat.Defs
import QueryTemplate.Proofs.Scope.Walk

/-!
# Stacks of scopes

Between two steps of an evaluation the live scopes are the current one and those that will be current again, the global
scope last (`ScopeStore.Stack`). Opening a scope puts it on the stack, and releasing it takes it away.

The slot of a released scope is used again under the next generation. Generations wrap around, but not before 2³² scopes
have been opened (`ScopeStore.Counted`). Up to then a handle whose scope has been released does not come back to life
(`ScopeStore.Past`).
-/

namespace QueryTemplate

namespace ScopeStore

variable {α : Type} {st st' : ScopeStore α} {id other parent : ScopeId} {ids : List ScopeId}

/-- The live scopes are those of a list without repetition, whose last one is the global scope. -/
structure Stack (st : ScopeStore α) (ids : List ScopeId) : Prop where
  consistent : st.Consistent
  live_iff : ∀ id, st.isLive id = true ↔ id ∈ ids
  nodup : ids.Nodup
  getLast : ids.getLast? = some global

namespace Stack

theorem initial : (initial : ScopeStore α).Stack [global] where
  consistent := initial_consistent
  live_iff id := by
    rw [List.mem_singleton]
    constructor
    · intro h
      obtain ⟨s, hs⟩ := isLive_iff.1 h
      have hsize := (Array.getElem?_eq_some_iff.1 (scope?_eq_some.1 hs)).1
      have hslot : id.slot = 0 := Nat.lt_one_iff.1 hsize
      exact eq_of_isLive h initial_consistent.isLive_global hslot
    · rintro rfl
      exact initial_consistent.isLive_global
  nodup := List.nodup_cons.2 ⟨List.not_mem_nil, List.nodup_nil⟩
  getLast := rfl

/-- What does not change which scopes are live keeps the stack. -/
theorem of_live (h : st.Stack ids) (hc : st'.Consistent) (hl : ∀ id, st'.isLive id = st.isLive id) : st'.Stack ids where
  consistent := hc
  live_iff id := by rw [hl]; exact h.live_iff id
  nodup := h.nodup
  getLast := h.getLast

theorem push (h : st.Stack ids) (parent : ScopeId) : (st.push parent).2.Stack ((st.push parent).1 :: ids) := by
  obtain ⟨hfresh, -, hpush⟩ := scope?_push h.consistent parent
  have hnot : (st.push parent).1 ∉ ids := fun hm => by
    rw [← h.live_iff, isLive, hfresh] at hm
    cases hm
  refine ⟨push_consistent h.consistent parent, fun id => ?_, List.nodup_cons.2 ⟨hnot, h.nodup⟩, ?_⟩
  · by_cases hid : id = (st.push parent).1
    · rw [isLive, hpush, if_pos hid]
      exact iff_of_true rfl (hid ▸ List.mem_cons_self)
    · rw [isLive, hpush, if_neg hid, List.mem_cons, ← h.live_iff]
      simp [hid, isLive]
  · cases ids with
    | nil => cases h.getLast
    | cons id ids => rw [List.getLast?_cons_cons]; exact h.getLast

theorem getLast_tail (h : st.Stack (id :: ids)) (hne : ids ≠ []) : ids.getLast? = some global := by
  have hlast := h.getLast
  cases ids with
  | nil => exact absurd rfl hne
  | cons => rwa [List.getLast?_cons_cons] at hlast

theorem ne_global (h : st.Stack (id :: ids)) (hne : ids ≠ []) : id ≠ global := fun he =>
  (List.nodup_cons.1 h.nodup).1 (he ▸ List.mem_of_getLast? (h.getLast_tail hne))

theorem release (h : st.Stack (id :: ids)) (hne : ids ≠ []) : (st.release id).Stack ids := by
  obtain ⟨hnot, hnodup⟩ := List.nodup_cons.1 h.nodup
  have hscope := scope?_release ((h.live_iff _).2 List.mem_cons_self) (h.ne_global hne)
  refine ⟨release_consistent h.consistent id, fun other => ?_, hnodup, h.getLast_tail hne⟩
  rw [isLive, hscope]
  split
  next he => simpa [he] using hnot
  next hother =>
    have := h.live_iff other
    rw [List.mem_cons] at this
    simpa [hother, isLive] using this

/-- There are no more live scopes than slots. -/
theorem length_le (h : st.Stack ids) : ids.length ≤ st.slots.size :=
  length_le_of_live (fun id hid => (h.live_iff id).2 hid) h.nodup

end Stack

/-! ## Generations -/

theorem generation_of_live (h : st.isLive id = true) : st.generation id.slot = id.generation := by
  obtain ⟨s, hs⟩ := isLive_iff.1 h
  unfold generation
  rw [scope?_eq_some.1 hs]

theorem generation_congr {slot : Nat} (h : st'.slots[slot]? = st.slots[slot]?) :
    st'.generation slot = st.generation slot := by
  unfold generation
  rw [h]

theorem generation_store {s : Scope α} (h : st.isLive id = true) (slot : Nat) :
    (st.store id s).generation slot = st.generation slot := by
  by_cases hs : slot = id.slot
  · subst hs
    have hnew : (st.store id s).isLive id = true := by
      rw [isLive, scope?_store h, if_pos rfl]
      rfl
    rw [generation_of_live h, generation_of_live hnew]
  · refine generation_congr ?_
    rw [slots_store, Array.getElem?_setIfInBounds_ne (Ne.symm hs)]

theorem generation_define (name : String) (value : α) (slot : Nat) :
    (st.define id name value).generation slot = st.generation slot := by
  cases h : st.scope? id with
  | none => rw [define_eq_of_dead h]
  | some s =>
    rw [define_eq_of_live h]
    exact generation_store (isLive_iff.2 ⟨s, h⟩) slot

theorem generation_defineAll (entries : List (String × α)) (slot : Nat) :
    (st.defineAll id entries).generation slot = st.generation slot := by
  induction entries generalizing st with
  | nil => rfl
  | cons e entries ih => exact ih.trans (generation_define e.1 e.2 slot)

theorem generation_push (parent : ScopeId) (slot : Nat) :
    (st.push parent).2.generation slot = st.generation slot ∧
      (st.push parent).1.generation = st.generation (st.push parent).1.slot := by
  unfold push
  split
  next taken free hf =>
    refine ⟨?_, rfl⟩
    show ScopeStore.generation (st.store ⟨taken, st.generation taken⟩ _) slot = _
    by_cases hs : slot = taken
    · subst hs
      by_cases hlt : slot < st.slots.size
      · conv => lhs; unfold generation
        rw [slots_store, Array.getElem?_setIfInBounds_self_of_lt hlt]
        rfl
      · refine generation_congr ?_
        rw [slots_store, Array.setIfInBounds_eq_of_size_le (Nat.le_of_not_lt hlt)]
    · refine generation_congr ?_
      rw [slots_store, Array.getElem?_setIfInBounds_ne (Ne.symm hs)]
  next hf =>
    refine ⟨?_, ?_⟩
    · by_cases hs : slot = st.slots.size
      · simp [generation, hs]
      · refine generation_congr ?_
        rw [Array.getElem?_push, if_neg hs]
    · simp [generation]

theorem generation_release (h : st.isLive id = true) (hg : id ≠ global) (slot : Nat) :
    (st.release id).generation slot = if slot = id.slot then id.generation + 1 else st.generation slot := by
  obtain ⟨old, hold⟩ := isLive_iff.1 h
  have hlt : id.slot < st.slots.size := (Array.getElem?_eq_some_iff.1 (scope?_eq_some.1 hold)).1
  have hrelease : ¬(id = global ∨ st.isLive id = false) := by simp [hg, h]
  unfold release
  rw [if_neg hrelease]
  split
  next hs =>
    unfold generation
    simp only [hs, Array.getElem?_setIfInBounds_self_of_lt hlt]
  next hs => exact generation_congr (Array.getElem?_setIfInBounds_ne (Ne.symm hs))

/-- The scope of the handle has been released. -/
def Past (st : ScopeStore α) (id : ScopeId) : Prop := id.generation.toNat < (st.generation id.slot).toNat

theorem Past.not_live (h : st.Past id) : st.isLive id = false := by
  cases hl : st.isLive id with
  | false => rfl
  | true =>
    unfold Past at h
    rw [generation_of_live hl] at h
    exact absurd h (Nat.lt_irrefl _)

theorem Past.of_generation (h : st.Past id) (hg : ∀ slot, st'.generation slot = st.generation slot) : st'.Past id := by
  unfold Past at h ⊢
  rwa [hg]

/-- No slot has been released more often than scopes have been opened, and one that is taken less often than that. -/
structure Counted (st : ScopeStore α) : Prop where
  generation_le : ∀ slot, (st.generation slot).toNat ≤ st.opened
  generation_lt : ∀ id, st.isLive id = true → id ≠ global → id.generation.toNat < st.opened

namespace Counted

theorem initial : (initial : ScopeStore α).Counted where
  generation_le slot := by
    cases slot <;> exact Nat.le_refl 0
  generation_lt id hl hg := absurd (List.mem_singleton.1 ((Stack.initial.live_iff id).1 hl)) hg

theorem of_live (h : st.Counted) (hg : ∀ slot, st'.generation slot = st.generation slot)
    (hl : ∀ id, st'.isLive id = st.isLive id) (ho : st'.opened = st.opened) : st'.Counted where
  generation_le slot := by rw [hg, ho]; exact h.generation_le slot
  generation_lt id hi := by rw [ho]; exact h.generation_lt id (by rwa [hl] at hi)

theorem push (h : st.Counted) (hc : st.Consistent) (parent : ScopeId) : (st.push parent).2.Counted where
  generation_le slot := by
    rw [(generation_push parent slot).1, push_opened]
    exact Nat.le_succ_of_le (h.generation_le slot)
  generation_lt id hl hg := by
    rw [push_opened]
    by_cases hid : id = (st.push parent).1
    · rw [hid, (generation_push parent 0).2]
      exact Nat.lt_succ_of_le (h.generation_le _)
    · rw [isLive, (scope?_push hc parent).2.2, if_neg hid] at hl
      exact Nat.lt_succ_of_lt (h.generation_lt id hl hg)

/-- The generation after that of a live scope. -/
theorem toNat_succ (h : st.Counted) (hl : st.isLive id = true) (hg : id ≠ global) (ho : st.opened < 2 ^ 32) :
    (id.generation + 1).toNat = id.generation.toNat + 1 := by
  have := h.generation_lt id hl hg
  rw [UInt32.toNat_add, UInt32.toNat_one]
  exact Nat.mod_eq_of_lt (by omega)

theorem release (h : st.Counted) (hl : st.isLive id = true) (hg : id ≠ global) (ho : st.opened < 2 ^ 32) :
    (st.release id).Counted where
  generation_le slot := by
    rw [generation_release hl hg, release_opened]
    split
    · rw [h.toNat_succ hl hg ho]
      exact h.generation_lt id hl hg
    · exact h.generation_le slot
  generation_lt other ho hne := by
    rw [isLive, scope?_release hl hg] at ho
    rw [release_opened]
    split at ho
    · cases ho
    · exact h.generation_lt other ho hne

/-- A released handle is past, and those that have been stay so. -/
theorem past_release (h : st.Counted) (hl : st.isLive id = true) (hg : id ≠ global) (ho : st.opened < 2 ^ 32)
    (hp : other = id ∨ st.Past other) : (st.release id).Past other := by
  unfold Past
  rw [generation_release hl hg]
  rcases hp with rfl | hp
  · rw [if_pos rfl, h.toNat_succ hl hg ho]
    exact Nat.lt_succ_self _
  · unfold Past at hp
    split
    next hs =>
      rw [hs, generation_of_live hl] at hp
      rw [h.toNat_succ hl hg ho]
      exact Nat.lt_succ_of_lt hp
    next => exact hp

end Counted

end ScopeStore

end QueryTemplate
