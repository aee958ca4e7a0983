import Mathlib.Data.List.Nodup
import Mathlib.Data.List.Perm.Subperm
import QueryTemplate.Proofs.Scope.Store

/-!
# Walks outward

Looking for a name goes from a scope to the one around it, and so on, for as long as the name is not found. `Walk`
states this without a bound on the number of scopes. If every live scope is inside an older one, whatever ages are, then
every walk comes to an end, and the bounded search of the store comes to the same end (`exists_walk`).

No list of different live handles is longer than there are slots, and one of all live handles is as long as there are
live scopes.
-/

namespace QueryTemplate

/-- How a walk ends. -/
inductive WalkEnd (α : Type)
  /-- At a live scope, which binds the name. -/
  | found (owner : ScopeId) (s : Scope α)
  /-- At a handle of a scope that is not live. -/
  | released (id : ScopeId)
  /-- Outside the global scope. -/
  | outside

namespace WalkEnd

variable {α : Type}

/-- The scope that binds the name. -/
def binder? : WalkEnd α → Option (ScopeId × Scope α)
  | found owner s => some (owner, s)
  | released _ | outside => none

end WalkEnd

namespace ScopeStore

variable {α : Type} {st : ScopeStore α} {id : ScopeId} {ids : List ScopeId} {name : String}

/-- The walk from a scope outward to where a name is bound, or to where it cannot go on. -/
inductive Walk (st : ScopeStore α) (name : String) : ScopeId → WalkEnd α → Prop
  | released {id : ScopeId} (h : st.scope? id = none) : Walk st name id (.released id)
  | found {id : ScopeId} {s : Scope α} (h : st.scope? id = some s) (hn : s.bindings.contains name = true) :
    Walk st name id (.found id s)
  | outside {id : ScopeId} {s : Scope α} (h : st.scope? id = some s) (hn : s.bindings.contains name = false)
    (hp : s.parent = none) : Walk st name id .outside
  | outward {id parent : ScopeId} {s : Scope α} {e : WalkEnd α} (h : st.scope? id = some s)
    (hn : s.bindings.contains name = false) (hp : s.parent = some parent) (hw : Walk st name parent e) :
    Walk st name id e

/-! ## Live handles and slots -/

/-- There are no more live scopes than slots. -/
theorem length_le_of_live (hl : ∀ id ∈ ids, st.isLive id = true) (hn : ids.Nodup) : ids.length ≤ st.slots.size := by
  have hslots : (ids.map ScopeId.slot).Nodup := by
    refine List.Nodup.map_on (fun a ha b hb hs => ?_) hn
    exact eq_of_isLive (hl a ha) (hl b hb) hs
  have hsub : ids.map ScopeId.slot ⊆ List.range st.slots.size := fun slot hs => by
    obtain ⟨id, hid, rfl⟩ := List.mem_map.1 hs
    obtain ⟨s, hscope⟩ := isLive_iff.1 (hl id hid)
    exact List.mem_range.2 (Array.getElem?_eq_some_iff.1 (scope?_eq_some.1 hscope)).1
  have hle := (List.subperm_of_subset hslots hsub).length_le
  rwa [List.length_map, List.length_range] at hle

/-- Whether there is a scope in a slot. -/
def isTaken (st : ScopeStore α) (slot : Nat) : Bool := (st.slots[slot]?).any fun s => s.scope.isSome

theorem isTaken_iff {slot : Nat} : st.isTaken slot = true ↔ ∃ id, id.slot = slot ∧ st.isLive id = true := by
  unfold isTaken
  constructor
  · intro h
    obtain ⟨⟨g, o⟩, hs, ho⟩ := (Option.any_eq_true ..).1 h
    obtain ⟨s, rfl⟩ := Option.isSome_iff_exists.1 ho
    exact ⟨⟨slot, g⟩, rfl, isLive_iff.2 ⟨s, scope?_eq_some.2 hs⟩⟩
  · rintro ⟨id, rfl, hl⟩
    obtain ⟨s, hs⟩ := isLive_iff.1 hl
    rw [scope?_eq_some.1 hs]
    rfl

theorem countP_eq_countP_range {β : Type} (p : β → Bool) (l : List β) :
    l.countP p = (List.range l.length).countP fun i => (l[i]?).any p := by
  induction l with
  | nil => rfl
  | cons x l ih =>
    rw [List.length_cons, List.range_succ_eq_map, List.countP_cons, List.countP_cons, List.countP_map, ih]
    rfl

/-- There are as many live scopes as live handles. -/
theorem liveCount_eq_length (hl : ∀ id, st.isLive id = true ↔ id ∈ ids) (hn : ids.Nodup) :
    st.liveCount = ids.length := by
  have hslots : (ids.map ScopeId.slot).Nodup := by
    refine List.Nodup.map_on (fun a ha b hb hs => ?_) hn
    exact eq_of_isLive ((hl a).2 ha) ((hl b).2 hb) hs
  have htaken : ((List.range st.slots.size).filter st.isTaken).Perm (ids.map ScopeId.slot) := by
    refine (List.perm_ext_iff_of_nodup (List.nodup_range.filter _) hslots).2 fun slot => ?_
    rw [List.mem_filter, isTaken_iff, List.mem_map]
    constructor
    · rintro ⟨-, id, hid, hlive⟩
      exact ⟨id, (hl id).1 hlive, hid⟩
    · rintro ⟨id, hid, rfl⟩
      obtain ⟨s, hscope⟩ := isLive_iff.1 ((hl id).2 hid)
      have hlt := (Array.getElem?_eq_some_iff.1 (scope?_eq_some.1 hscope)).1
      exact ⟨List.mem_range.2 hlt, id, rfl, (hl id).2 hid⟩
  rw [liveCount, ← Array.countP_toList, countP_eq_countP_range, List.countP_eq_length_filter, Array.length_toList]
  simp only [Array.getElem?_toList]
  rw [← List.length_map (f := ScopeId.slot), ← htaken.length_eq]
  rfl

/-! ## Walks -/

namespace Walk

/-- A walk has one end. -/
theorem unique {e e' : WalkEnd α} (h : st.Walk name id e) (h' : st.Walk name id e') : e = e' := by
  induction h with
  | released h =>
    cases h' with
    | released => rfl
    | found h₁ | outside h₁ | outward h₁ => rw [h] at h₁; cases h₁
  | found h hn =>
    cases h' with
    | released h₁ => rw [h] at h₁; cases h₁
    | found h₁ => rw [h] at h₁; cases h₁; rfl
    | outside h₁ hn₁ | outward h₁ hn₁ => rw [h] at h₁; cases h₁; rw [hn] at hn₁; cases hn₁
  | outside h hn hp =>
    cases h' with
    | released h₁ => rw [h] at h₁; cases h₁
    | found h₁ hn₁ => rw [h] at h₁; cases h₁; rw [hn] at hn₁; cases hn₁
    | outside => rfl
    | outward h₁ hn₁ hp₁ => rw [h] at h₁; cases h₁; rw [hp] at hp₁; cases hp₁
  | outward h hn hp _ ih =>
    cases h' with
    | released h₁ => rw [h] at h₁; cases h₁
    | found h₁ hn₁ => rw [h] at h₁; cases h₁; rw [hn] at hn₁; cases hn₁
    | outside h₁ hn₁ hp₁ => rw [h] at h₁; cases h₁; rw [hp] at hp₁; cases hp₁
    | outward h₁ hn₁ hp₁ hw₁ => rw [h] at h₁; cases h₁; rw [hp] at hp₁; cases hp₁; exact ih hw₁

end Walk

/-- Every live scope is inside an older one. -/
def Aged (st : ScopeStore α) (age : ScopeId → Nat) : Prop :=
  ∀ id s parent, st.scope? id = some s → s.parent = some parent → st.isLive parent = true → age parent < age id

theorem binderWithin_of_dead (h : st.scope? id = none) (count : Nat) : st.binderWithin name count id = none := by
  cases count with
  | zero => rfl
  | succ count =>
    unfold binderWithin
    rw [h]

theorem binderWithin_of_live {s : Scope α} (h : st.scope? id = some s) (count : Nat) :
    st.binderWithin name (count + 1) id =
      if s.bindings.contains name then some (id, s)
      else s.parent.bind fun parent => st.binderWithin name count parent := by
  rw [binderWithin, h]
  cases hp : s.parent <;> simp [hp]

/-- A search that can pass as many scopes as have not been passed before comes to the end of the walk. -/
theorem Aged.exists_walk_within {age : ScopeId → Nat} (ha : st.Aged age) {count : Nat} {seen : List ScopeId}
    (hl : ∀ other ∈ seen, st.isLive other = true) (hn : seen.Nodup) (hid : ∀ other ∈ seen, age id < age other)
    (hc : count + seen.length = st.slots.size) :
    ∃ e, st.Walk name id e ∧ st.binderWithin name count id = e.binder? := by
  induction count generalizing id seen with
  | zero =>
    cases hs : st.scope? id with
    | none => exact ⟨_, .released hs, rfl⟩
    | some s =>
      have hnew : id ∉ seen := fun hm => Nat.lt_irrefl _ (hid id hm)
      have hle : (id :: seen).length ≤ st.slots.size :=
        length_le_of_live (List.forall_mem_cons.2 ⟨isLive_iff.2 ⟨s, hs⟩, hl⟩) (List.nodup_cons.2 ⟨hnew, hn⟩)
      rw [List.length_cons] at hle
      omega
  | succ count ih =>
    cases hs : st.scope? id with
    | none => exact ⟨_, .released hs, binderWithin_of_dead hs _⟩
    | some s =>
      rw [binderWithin_of_live hs]
      cases hb : s.bindings.contains name with
      | true => exact ⟨_, .found hs hb, if_pos rfl⟩
      | false =>
        rw [if_neg Bool.false_ne_true]
        cases hp : s.parent with
        | none => exact ⟨_, .outside hs hb hp, rfl⟩
        | some parent =>
          cases hparent : st.scope? parent with
          | none => exact ⟨_, .outward hs hb hp (.released hparent), binderWithin_of_dead hparent count⟩
          | some t =>
            have hlt : age parent < age id := ha id s parent hs hp (isLive_iff.2 ⟨t, hparent⟩)
            have hnew : id ∉ seen := fun hm => Nat.lt_irrefl _ (hid id hm)
            have hseen : ∀ other ∈ id :: seen, age parent < age other :=
              List.forall_mem_cons.2 ⟨hlt, fun other hm => Nat.lt_trans hlt (hid other hm)⟩
            obtain ⟨e, hw, he⟩ := ih (List.forall_mem_cons.2 ⟨isLive_iff.2 ⟨s, hs⟩, hl⟩)
              (List.nodup_cons.2 ⟨hnew, hn⟩) hseen (by rw [List.length_cons]; omega)
            exact ⟨e, .outward hs hb hp hw, he⟩

/-- Every walk ends, and where it ends the search of the store does. -/
theorem Aged.exists_walk {age : ScopeId → Nat} (ha : st.Aged age) (id : ScopeId) (name : String) :
    ∃ e, st.Walk name id e ∧ st.binder? id name = e.binder? :=
  ha.exists_walk_within (List.forall_mem_nil _) List.nodup_nil (List.forall_mem_nil _) rfl

/-- The search ends where a walk does. -/
theorem Aged.binder?_eq {age : ScopeId → Nat} (ha : st.Aged age) {e : WalkEnd α} (hw : st.Walk name id e) :
    st.binder? id name = e.binder? := by
  obtain ⟨e', hw', he⟩ := ha.exists_walk id name
  rw [he, hw'.unique hw]

end ScopeStore

end QueryTemplate
