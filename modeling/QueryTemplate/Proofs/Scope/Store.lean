import QueryTemplate.Scope.Basic

/-!
# Handles in a store of scopes

Each operation of the store changes what one handle reaches and nothing else (`scope?_push`, `scope?_release`,
`scope?_define`, `scope?_assign?`). A slot is used for one scope after another, so this rests on an invariant: the slots
that are free hold no scope, and the global scope keeps its slot (`Consistent`).
-/

namespace QueryTemplate

namespace ScopeStore

variable {α : Type} {st st' : ScopeStore α} {id other : ScopeId}

/-- The free slots are slots without a scope, and the global scope is in its slot. -/
structure Consistent (st : ScopeStore α) : Prop where
  free_nodup : st.free.Nodup
  free_empty : ∀ slot ∈ st.free, ∃ g, st.slots[slot]? = some ⟨g, none⟩
  global_live : ∃ s, st.slots[0]? = some ⟨0, some s⟩

theorem initial_consistent : (initial : ScopeStore α).Consistent where
  free_nodup := List.nodup_nil
  free_empty := by simp [initial]
  global_live := ⟨_, rfl⟩

/-! ## What handles reach -/

theorem scope?_eq_some {s : Scope α} : st.scope? id = some s ↔ st.slots[id.slot]? = some ⟨id.generation, some s⟩ := by
  unfold scope?
  constructor
  · intro h
    split at h
    next slot hs =>
      split at h
      next hg =>
        rw [hs, ← hg, ← h]
      next => cases h
    next => cases h
  · intro h
    rw [h]
    simp

theorem scope?_eq_none_of_empty {slot : Nat} {g : UInt32} (h : st.slots[slot]? = some ⟨g, none⟩)
    (hi : id.slot = slot) : st.scope? id = none := by
  unfold scope?
  rw [hi, h]
  simp

theorem isLive_iff : st.isLive id = true ↔ ∃ s, st.scope? id = some s := Option.isSome_iff_exists

theorem isLive_global_iff : st.isLive global = true ↔ ∃ s, st.slots[0]? = some ⟨0, some s⟩ :=
  isLive_iff.trans (exists_congr fun _ => scope?_eq_some)

theorem Consistent.isLive_global (h : st.Consistent) : st.isLive global = true := isLive_global_iff.2 h.global_live

/-- What a handle reaches is in the slot that it names. -/
theorem scope?_congr (h : st'.slots[id.slot]? = st.slots[id.slot]?) : st'.scope? id = st.scope? id := by
  unfold scope?
  rw [h]

/-- Two live handles of one slot are the same. -/
theorem eq_of_isLive (h : st.isLive id = true) (h' : st.isLive other = true) (hs : id.slot = other.slot) :
    id = other := by
  obtain ⟨s, hs₁⟩ := isLive_iff.1 h
  obtain ⟨s', hs₂⟩ := isLive_iff.1 h'
  rw [scope?_eq_some] at hs₁ hs₂
  rw [hs, hs₂] at hs₁
  cases id
  cases other
  cases hs₁
  cases hs
  rfl

/-! ## Storing into a live scope -/

section Store

variable {s : Scope α}

theorem slots_store : (st.store id s).slots = st.slots.setIfInBounds id.slot ⟨id.generation, some s⟩ := rfl

theorem scope?_store (h : st.isLive id = true) :
    (st.store id s).scope? other = if other = id then some s else st.scope? other := by
  obtain ⟨old, hold⟩ := isLive_iff.1 h
  rw [scope?_eq_some] at hold
  have hlt : id.slot < st.slots.size := (Array.getElem?_eq_some_iff.1 hold).1
  by_cases hs : other.slot = id.slot
  · have hnew : (st.store id s).slots[other.slot]? = some ⟨id.generation, some s⟩ := by
      rw [slots_store, hs, Array.getElem?_setIfInBounds_self_of_lt hlt]
    split
    next he => exact scope?_eq_some.2 (by rw [hnew, he])
    next he =>
      have hg : id.generation ≠ other.generation := fun hg => he (by cases other; cases id; cases hs; cases hg; rfl)
      unfold scope?
      rw [hnew, hs, hold]
      simp [hg]
  · have he : other ≠ id := fun he => hs (congrArg _ he)
    rw [if_neg he]
    refine scope?_congr ?_
    rw [slots_store, Array.getElem?_setIfInBounds_ne (Ne.symm hs)]

theorem store_consistent (hc : st.Consistent) (h : st.isLive id = true) : (st.store id s).Consistent where
  free_nodup := hc.free_nodup
  free_empty slot hslot := by
    obtain ⟨g, hg⟩ := hc.free_empty slot hslot
    obtain ⟨old, hold⟩ := isLive_iff.1 h
    have hne : id.slot ≠ slot := by
      rintro rfl
      rw [scope?_eq_none_of_empty hg rfl] at hold
      cases hold
    exact ⟨g, by rw [slots_store, Array.getElem?_setIfInBounds_ne hne, hg]⟩
  global_live := isLive_global_iff.1 <| by
    rw [isLive, scope?_store h]
    split
    · rfl
    · exact hc.isLive_global

end Store

/-! ## Opening and releasing -/

theorem push_opened (parent : ScopeId) : (st.push parent).2.opened = st.opened + 1 := by
  unfold push
  split <;> rfl

/-- The handle of a new scope has not been live, and it is the only one that opening changes. -/
theorem scope?_push (hc : st.Consistent) (parent : ScopeId) :
    st.scope? (st.push parent).1 = none ∧ (st.push parent).1.slot ≠ 0 ∧
      ∀ other, (st.push parent).2.scope? other =
        if other = (st.push parent).1 then some ⟨some parent, .empty⟩ else st.scope? other := by
  obtain ⟨t, ht⟩ := hc.global_live
  unfold push
  split
  next slot free hf =>
    obtain ⟨g, hg⟩ := hc.free_empty slot (by rw [hf]; exact List.mem_cons_self)
    have hgen : st.generation slot = g := by simp [generation, hg]
    have hlt : slot < st.slots.size := (Array.getElem?_eq_some_iff.1 hg).1
    refine ⟨scope?_eq_none_of_empty hg rfl, ?_, fun other => ?_⟩
    · rintro rfl
      rw [ht] at hg
      cases hg
    · by_cases hs : other.slot = slot
      · have hold : st.scope? other = none := scope?_eq_none_of_empty hg hs
        rw [hold, hgen]
        have hnew : (st.store ⟨slot, g⟩ ⟨some parent, .empty⟩).slots[other.slot]?
            = some ⟨g, some ⟨some parent, .empty⟩⟩ := by
          rw [slots_store, hs, Array.getElem?_setIfInBounds_self_of_lt hlt]
        unfold scope?
        simp only [hnew]
        cases other
        cases hs
        simp [ScopeId.mk.injEq, eq_comm]
      · have he : other ≠ ⟨slot, st.generation slot⟩ := fun he => hs (congrArg ScopeId.slot he)
        rw [if_neg he]
        refine scope?_congr ?_
        show (st.store _ _).slots[other.slot]? = _
        rw [slots_store, Array.getElem?_setIfInBounds_ne (Ne.symm hs)]
  next hf =>
    have hsize : st.slots[st.slots.size]? = none := Array.getElem?_size
    refine ⟨?_, ?_, fun other => ?_⟩
    · unfold scope?
      rw [hsize]
    · exact Nat.ne_of_gt (Array.getElem?_eq_some_iff.1 ht).1
    · unfold scope?
      simp only [Array.getElem?_push]
      cases other with
      | mk slot g =>
        by_cases hs : slot = st.slots.size
        · subst hs
          simp [eq_comm]
        · simp [hs]

theorem push_consistent (hc : st.Consistent) (parent : ScopeId) : (st.push parent).2.Consistent := by
  have hpush := scope?_push hc parent
  have hglobal : ∃ s, (st.push parent).2.slots[0]? = some ⟨0, some s⟩ := isLive_global_iff.1 <| by
    rw [isLive, hpush.2.2, if_neg (fun he => hpush.2.1 (congrArg ScopeId.slot he).symm)]
    exact hc.isLive_global
  revert hglobal
  unfold push
  split
  next slot free hf =>
    intro hglobal
    have hnodup : slot ∉ free ∧ free.Nodup := List.nodup_cons.1 (hf ▸ hc.free_nodup)
    refine ⟨hnodup.2, fun slot' hs' => ?_, hglobal⟩
    have hne : slot ≠ slot' := fun he => hnodup.1 (he ▸ hs')
    obtain ⟨g, hg⟩ := hc.free_empty slot' (by rw [hf]; exact List.mem_cons_of_mem _ hs')
    refine ⟨g, ?_⟩
    show (st.store _ _).slots[slot']? = _
    rw [slots_store, Array.getElem?_setIfInBounds_ne hne, hg]
  next hf =>
    intro hglobal
    exact ⟨hc.free_nodup, fun slot hslot => (by rw [hf] at hslot; cases hslot), hglobal⟩

/-- Releasing a scope takes it from its handle and changes no other. -/
theorem scope?_release (h : st.isLive id = true) (hg : id ≠ global) (other : ScopeId) :
    (st.release id).scope? other = if other = id then none else st.scope? other := by
  obtain ⟨old, hold⟩ := isLive_iff.1 h
  rw [scope?_eq_some] at hold
  have hlt : id.slot < st.slots.size := (Array.getElem?_eq_some_iff.1 hold).1
  have hrelease : ¬(id = global ∨ st.isLive id = false) := by simp [hg, h]
  unfold release
  rw [if_neg hrelease]
  by_cases hs : other.slot = id.slot
  · have hnew : (st.slots.setIfInBounds id.slot ⟨id.generation + 1, none⟩)[other.slot]?
        = some ⟨id.generation + 1, none⟩ := by
      rw [hs, Array.getElem?_setIfInBounds_self_of_lt hlt]
    rw [scope?_eq_none_of_empty hnew rfl]
    split
    · rfl
    next he =>
      cases ho : st.scope? other with
      | none => rfl
      | some s => exact absurd (eq_of_isLive (isLive_iff.2 ⟨s, ho⟩) h hs) he
  · rw [if_neg (fun he => hs (congrArg _ he))]
    refine scope?_congr ?_
    rw [Array.getElem?_setIfInBounds_ne (Ne.symm hs)]

theorem release_opened (id : ScopeId) : (st.release id).opened = st.opened := by
  unfold release
  split <;> rfl

theorem release_consistent (hc : st.Consistent) (id : ScopeId) : (st.release id).Consistent := by
  by_cases h : id = global ∨ st.isLive id = false
  · unfold release
    rwa [if_pos h]
  · have hg : id ≠ global := fun he => h (.inl he)
    have hl : st.isLive id = true := by
      cases hb : st.isLive id with
      | true => rfl
      | false => exact absurd (.inr hb) h
    obtain ⟨old, hold⟩ := isLive_iff.1 hl
    have hslot := scope?_eq_some.1 hold
    have hlt : id.slot < st.slots.size := (Array.getElem?_eq_some_iff.1 hslot).1
    have hne : id.slot ≠ 0 := fun he => hg (eq_of_isLive hl hc.isLive_global he)
    have hfree : id.slot ∉ st.free := fun hm => by
      obtain ⟨g, he⟩ := hc.free_empty _ hm
      rw [hslot] at he
      cases he
    unfold release
    rw [if_neg h]
    refine ⟨List.nodup_cons.2 ⟨hfree, hc.free_nodup⟩, fun slot hs => ?_, ?_⟩
    · rcases List.mem_cons.1 hs with rfl | hs
      · exact ⟨_, Array.getElem?_setIfInBounds_self_of_lt hlt⟩
      · obtain ⟨g, he⟩ := hc.free_empty slot hs
        have hne' : id.slot ≠ slot := fun he => hfree (by rw [he]; exact hs)
        exact ⟨g, by rw [Array.getElem?_setIfInBounds_ne hne', he]⟩
    · obtain ⟨t, ht⟩ := hc.global_live
      exact ⟨t, by rw [Array.getElem?_setIfInBounds_ne hne, ht]⟩

/-! ## Binding names -/

theorem define_eq_of_dead (h : st.scope? id = none) (name : String) (value : α) : st.define id name value = st := by
  unfold define
  rw [h]

theorem define_eq_of_live {s : Scope α} (h : st.scope? id = some s) (name : String) (value : α) :
    st.define id name value = st.store id { s with bindings := s.bindings.insert name value } := by
  unfold define
  rw [h]

theorem scope?_define (name : String) (value : α) :
    (st.define id name value).scope? other = if other = id
      then (st.scope? id).map fun s => { s with bindings := s.bindings.insert name value } else st.scope? other := by
  cases h : st.scope? id with
  | none =>
    rw [define_eq_of_dead h]
    split
    next he => rw [he, h]; rfl
    next => rfl
  | some s => rw [define_eq_of_live h, scope?_store (isLive_iff.2 ⟨s, h⟩)]; rfl

theorem define_opened (name : String) (value : α) : (st.define id name value).opened = st.opened := by
  unfold define
  split <;> rfl

theorem define_consistent (hc : st.Consistent) (id : ScopeId) (name : String) (value : α) :
    (st.define id name value).Consistent := by
  cases h : st.scope? id with
  | none => rwa [define_eq_of_dead h]
  | some s =>
    rw [define_eq_of_live h]
    exact store_consistent hc (isLive_iff.2 ⟨s, h⟩)

/-- Binding names in a scope keeps its parent and changes no other scope. -/
theorem scope?_defineAll (entries : List (String × α)) :
    (st.defineAll id entries).scope? other = if other = id
      then (st.scope? id).map fun s => { s with bindings := s.bindings.insertAll entries } else st.scope? other := by
  induction entries generalizing st with
  | nil =>
    show st.scope? other = _
    split
    next he => rw [he]; cases st.scope? id <;> rfl
    next => rfl
  | cons e entries ih =>
    show ((st.define id e.1 e.2).defineAll id entries).scope? other = _
    rw [ih, scope?_define, scope?_define, if_pos rfl]
    split
    · cases st.scope? id <;> rfl
    · rfl

theorem isLive_define (name : String) (value : α) (other : ScopeId) :
    (st.define id name value).isLive other = st.isLive other := by
  rw [isLive, scope?_define]
  split
  next he => rw [he, isLive, Option.isSome_map]
  next => rfl

theorem isLive_defineAll {entries : List (String × α)} (other : ScopeId) :
    (st.defineAll id entries).isLive other = st.isLive other := by
  induction entries generalizing st with
  | nil => rfl
  | cons e entries ih => exact ih.trans (isLive_define e.1 e.2 other)

theorem isLive_store {s : Scope α} (h : st.isLive id = true) (other : ScopeId) :
    (st.store id s).isLive other = st.isLive other := by
  rw [isLive, scope?_store h]
  split
  next he => rw [he, h]; rfl
  next => rfl

theorem defineAll_opened (entries : List (String × α)) : (st.defineAll id entries).opened = st.opened := by
  induction entries generalizing st with
  | nil => rfl
  | cons e entries ih => exact ih.trans (define_opened e.1 e.2)

theorem defineAll_consistent (hc : st.Consistent) (id : ScopeId) (entries : List (String × α)) :
    (st.defineAll id entries).Consistent := by
  induction entries generalizing st with
  | nil => exact hc
  | cons e entries ih => exact ih (define_consistent hc id e.1 e.2)

/-! ## How many slots there are -/

/-- Every slot that is not taken is free, so a new slot is only made when all are taken. -/
def Packed (st : ScopeStore α) : Prop := ∀ slot g, st.slots[slot]? = some ⟨g, none⟩ → slot ∈ st.free

theorem initial_packed : (initial : ScopeStore α).Packed := by
  intro slot g h
  cases slot with
  | zero => cases h
  | succ slot => cases h

theorem store_packed (h : st.Packed) (id : ScopeId) (s : Scope α) : (st.store id s).Packed := by
  intro slot g hslot
  rw [slots_store, Array.getElem?_setIfInBounds] at hslot
  split at hslot
  · split at hslot <;> cases hslot
  · exact h slot g hslot

theorem push_packed (h : st.Packed) (parent : ScopeId) : (st.push parent).2.Packed := by
  unfold push
  split
  next first free hf =>
    intro slot g hslot
    rw [slots_store, Array.getElem?_setIfInBounds] at hslot
    split at hslot
    · split at hslot <;> cases hslot
    next hne =>
      have hfree := h slot g hslot
      rw [hf] at hfree
      exact (List.mem_cons.1 hfree).resolve_left (Ne.symm hne)
  next hf =>
    intro slot g hslot
    rw [Array.getElem?_push] at hslot
    split at hslot
    · cases hslot
    · exact h slot g hslot

theorem release_packed (h : st.Packed) (id : ScopeId) : (st.release id).Packed := by
  unfold release
  split
  · exact h
  · intro slot g hslot
    rw [Array.getElem?_setIfInBounds] at hslot
    split at hslot
    next he => exact he ▸ List.mem_cons_self
    next => exact List.mem_cons_of_mem _ (h slot g hslot)

theorem define_packed (h : st.Packed) (id : ScopeId) (name : String) (value : α) :
    (st.define id name value).Packed := by
  unfold define
  split
  · exact store_packed h id _
  · exact h

theorem size_store (st : ScopeStore α) (id : ScopeId) (s : Scope α) : (st.store id s).slots.size = st.slots.size :=
  Array.size_setIfInBounds

theorem size_release (st : ScopeStore α) (id : ScopeId) : (st.release id).slots.size = st.slots.size := by
  unfold release
  split
  · rfl
  · exact Array.size_setIfInBounds

theorem size_define (st : ScopeStore α) (id : ScopeId) (name : String) (value : α) :
    (st.define id name value).slots.size = st.slots.size := by
  unfold define
  split
  · exact size_store st id _
  · rfl

/-- A new handle is of a slot that there is then. No slot is made without need: there are no more than before, or no
more than live scopes. -/
theorem slot_push_lt (hc : st.Consistent) (h : st.Packed) (parent : ScopeId) :
    (st.push parent).1.slot < (st.push parent).2.slots.size ∧ st.slots.size ≤ (st.push parent).2.slots.size ∧
      ((st.push parent).2.slots.size = st.slots.size ∨
        (st.push parent).2.slots.size = (st.push parent).2.liveCount) := by
  unfold push
  split
  next slot free hf =>
    obtain ⟨g, hg⟩ := hc.free_empty slot (hf ▸ List.mem_cons_self)
    have hsize := size_store st ⟨slot, st.generation slot⟩ ⟨some parent, .empty⟩
    exact ⟨Nat.lt_of_lt_of_eq (Array.getElem?_eq_some_iff.1 hg).1 hsize.symm, Nat.le_of_eq hsize.symm, .inl hsize⟩
  next hf =>
    have htaken : ∀ s ∈ st.slots, s.scope.isSome = true := by
      rintro ⟨g, scope⟩ hs
      obtain ⟨slot, hslot⟩ := Array.mem_iff_getElem?.1 hs
      cases scope with
      | some scope => rfl
      | none =>
        have hfree := h slot g hslot
        rw [hf] at hfree
        cases hfree
    refine ⟨by simp, by simp, .inr ?_⟩
    rw [liveCount, eq_comm, Array.countP_eq_size]
    intro s hs
    rcases Array.mem_push.1 hs with hs | rfl
    · exact htaken s hs
    · rfl

/-! ## Finding and changing a binding -/

theorem binderWithin_eq_some {name : String} {count : Nat} {owner : ScopeId} {s : Scope α}
    (h : st.binderWithin name count id = some (owner, s)) :
    st.scope? owner = some s ∧ s.bindings.contains name = true := by
  induction count generalizing id with
  | zero => cases h
  | succ count ih =>
    unfold binderWithin at h
    split at h
    · cases h
    next t ht =>
      split at h
      next hn =>
        cases h
        exact ⟨ht, hn⟩
      next =>
        split at h
        · exact ih h
        · cases h

/-- A walk passes through a scope that binds nothing. -/
theorem binderWithin_of_empty (h : st.scope? id = some ⟨some other, .empty⟩) (name : String) (count : Nat) :
    st.binderWithin name (count + 1) id = st.binderWithin name count other := by
  rw [binderWithin, h]
  rfl

/-- A new value of a bound name is put into the scope that binds it. -/
theorem assign?_eq_some {name : String} {value : α} (h : st.assign? id name value = some st') :
    ∃ owner s, st.binder? id name = some (owner, s) ∧ st.scope? owner = some s ∧ s.bindings.contains name = true ∧
      st' = st.store owner { s with bindings := s.bindings.insert name value } := by
  unfold assign? at h
  cases hb : st.binder? id name with
  | none =>
    rw [hb] at h
    cases h
  | some p =>
    obtain ⟨owner, s⟩ := p
    rw [hb] at h
    obtain ⟨hs, hn⟩ := binderWithin_eq_some hb
    exact ⟨owner, s, rfl, hs, hn, (Option.some.inj h).symm⟩

end ScopeStore

end QueryTemplate
