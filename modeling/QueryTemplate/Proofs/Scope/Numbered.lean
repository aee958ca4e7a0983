import QueryTemplate.Proofs.Scope.Stack
import QueryTemplate.Proofs.Scope.Walk

/-!
# Scopes with numbers of their own

In a plainer store every scope that is opened gets a new number, which is never used again, and releasing a scope marks
it (`NumberedStore`). The store that uses the slots of released scopes again cannot be told apart from it by one who
only has the handles that the store gave out: in whatever order scopes are opened, released, also before those inside
them or twice, and used, also when they are dead, all answers are the same (`answers_eq_numbered`).

The two stores are kept together by `Represents`: the handles given out are the numbers, in order; a scope that is not
marked is reached by its handle, and the slot of one that is marked has passed the generation of its handle. Generations
wrap around, so this holds as long as fewer than 2³² scopes have been opened. Slots do not: there are no more of them
than scopes have been live at once (`ScopeClient.slot_lt_of_liveCount_le`).
-/

namespace QueryTemplate

/-! ## The plainer store -/

/-- A scope of the plainer store. -/
structure NumberedScope (α : Type) where
  /-- The number of the scope around it. -/
  parent : Option Nat
  bindings : Bindings α
  released : Bool

/-- The scopes in the order in which they were opened, the global scope first. A scope's number is its place. -/
structure NumberedStore (α : Type) where
  scopes : List (NumberedScope α)

namespace NumberedStore

variable {α : Type}

/-- The global scope alone. -/
def initial : NumberedStore α := ⟨[⟨none, .empty, false⟩]⟩

/-- The scope of a number, if it has not been released. -/
def live? (r : NumberedStore α) (n : Nat) : Option (NumberedScope α) := (r.scopes[n]?).filter fun s => !s.released

def isLive (r : NumberedStore α) (n : Nat) : Bool := (r.live? n).isSome

/-- The number of scopes that have not been released. -/
def liveCount (r : NumberedStore α) : Nat := r.scopes.countP fun s => !s.released

/-- Put a scope in the place of its number. -/
def put (r : NumberedStore α) (n : Nat) (s : NumberedScope α) : NumberedStore α := ⟨r.scopes.set n s⟩

/-- Open an empty scope inside another one. Its number is new. -/
def push (r : NumberedStore α) (parent : Nat) : Nat × NumberedStore α :=
  (r.scopes.length, ⟨r.scopes ++ [⟨some parent, .empty, false⟩]⟩)

/-- Mark a scope as released. The global scope is never released. -/
def release (r : NumberedStore α) (n : Nat) : NumberedStore α :=
  match r.live? n with
  | some s => if n = 0 then r else r.put n { s with released := true }
  | none => r

/-- Bind a name in a scope. In a released scope this does nothing. -/
def define (r : NumberedStore α) (n : Nat) (name : String) (value : α) : NumberedStore α :=
  match r.live? n with
  | some s => r.put n { s with bindings := s.bindings.insert name value }
  | none => r

/-- The innermost scope, from the given one outward, that binds a name. A released scope ends the walk. Every scope is
inside one with a smaller number. -/
def binder? (r : NumberedStore α) (name : String) (n : Nat) : Option (Nat × NumberedScope α) :=
  match r.live? n with
  | none => none
  | some s =>
    if s.bindings.contains name then some (n, s)
    else
      match s.parent with
      | some parent => if parent < n then r.binder? name parent else none
      | none => none
termination_by n

/-- The value of a name, from a scope outward. -/
def lookup (r : NumberedStore α) (n : Nat) (name : String) : Option α := do
  let (_, s) ← r.binder? name n
  s.bindings.find? name

/-- Give a name a new value in the innermost scope that binds it, if one does. -/
def assign? (r : NumberedStore α) (n : Nat) (name : String) (value : α) : Option (NumberedStore α) := do
  let (owner, s) ← r.binder? name n
  return r.put owner { s with bindings := s.bindings.insert name value }

end NumberedStore

/-! ## Requests -/

/-- What a store can be asked for. Scopes are given by their numbers in the order in which they were opened. -/
inductive StoreRequest (α : Type)
  | push (parent : Nat)
  | release (scope : Nat)
  | define (scope : Nat) (name : String) (value : α)
  | assign (scope : Nat) (name : String) (value : α)
  | lookup (scope : Nat) (name : String)
  | isLive (scope : Nat)
  | liveCount

/-- What a store answers. -/
inductive StoreAnswer (α : Type)
  | done
  /-- The scope of this number. -/
  | opened (n : Nat)
  | assigned (b : Bool)
  | value (v : Option α)
  | live (b : Bool)
  | count (n : Nat)
deriving DecidableEq

namespace StoreRequest

variable {α : Type}

/-- The scope that a request names. -/
def scope? : StoreRequest α → Option Nat
  | push n | release n | define n .. | assign n .. | lookup n _ | isLive n => some n
  | liveCount => none

/-- Whether a request opens a scope. -/
def opens : StoreRequest α → Bool
  | push _ => true
  | _ => false

/-- Whether requests name only scopes that have been opened before, of which there are so many at first. -/
def AllKnown : (count : Nat) → List (StoreRequest α) → Prop
  | _, [] => True
  | count, q :: qs => (∀ n ∈ q.scope?, n < count) ∧ AllKnown (count + if q.opens then 1 else 0) qs

instance : (count : Nat) → (qs : List (StoreRequest α)) → Decidable (AllKnown count qs)
  | _, [] => .isTrue trivial
  | count, q :: qs =>
    have := instDecidableAllKnown (count + if q.opens then 1 else 0) qs
    inferInstanceAs (Decidable ((∀ n ∈ q.scope?, n < count) ∧ AllKnown _ qs))

end StoreRequest

/-- The answer of the plainer store. -/
def NumberedStore.answer {α : Type} (r : NumberedStore α) : StoreRequest α → StoreAnswer α × NumberedStore α
  | .push parent => (.opened (r.push parent).1, (r.push parent).2)
  | .release n => (.done, r.release n)
  | .define n name v => (.done, r.define n name v)
  | .assign n name v =>
    match r.assign? n name v with
    | some r' => (.assigned true, r')
    | none => (.assigned false, r)
  | .lookup n name => (.value (r.lookup n name), r)
  | .isLive n => (.live (r.isLive n), r)
  | .liveCount => (.count r.liveCount, r)

/-- A store with the handles that it has given out, that of the global scope first. -/
structure ScopeClient (α : Type) where
  store : ScopeStore α
  handles : List ScopeId

namespace ScopeClient

variable {α : Type}

def initial : ScopeClient α := ⟨.initial, [ScopeStore.global]⟩

/-- The handle that was given out for a number. -/
def handle (c : ScopeClient α) (n : Nat) : ScopeId := c.handles.getD n ScopeStore.global

/-- Open a scope and keep its handle. -/
def push (c : ScopeClient α) (parent : Nat) : ScopeId × ScopeClient α :=
  let id := (c.store.push (c.handle parent)).1
  (id, ⟨(c.store.push (c.handle parent)).2, c.handles ++ [id]⟩)

/-- The answer of the store. A new handle is known by the first place at which it was given out. -/
def answer (c : ScopeClient α) : StoreRequest α → StoreAnswer α × ScopeClient α
  | .push parent => (.opened ((c.push parent).2.handles.idxOf (c.push parent).1), (c.push parent).2)
  | .release n => (.done, { c with store := c.store.release (c.handle n) })
  | .define n name v => (.done, { c with store := c.store.define (c.handle n) name v })
  | .assign n name v =>
    match c.store.assign? (c.handle n) name v with
    | some store => (.assigned true, { c with store })
    | none => (.assigned false, c)
  | .lookup n name => (.value (c.store.lookup (c.handle n) name), c)
  | .isLive n => (.live (c.store.isLive (c.handle n)), c)
  | .liveCount => (.count c.store.liveCount, c)

/-- The store after requests. -/
def after (c : ScopeClient α) (qs : List (StoreRequest α)) : ScopeClient α := qs.foldl (fun c q => (c.answer q).2) c

/-- The answers to requests, one after another. -/
def answers (c : ScopeClient α) : List (StoreRequest α) → List (StoreAnswer α)
  | [] => []
  | q :: qs => (c.answer q).1 :: (c.answer q).2.answers qs

end ScopeClient

namespace NumberedStore

variable {α : Type}

/-- The plainer store after requests. -/
def after (r : NumberedStore α) (qs : List (StoreRequest α)) : NumberedStore α := qs.foldl (fun r q => (r.answer q).2) r

/-- The answers of the plainer store, one after another. -/
def answers (r : NumberedStore α) : List (StoreRequest α) → List (StoreAnswer α)
  | [] => []
  | q :: qs => (r.answer q).1 :: (r.answer q).2.answers qs

end NumberedStore

/-! ## The two stores together -/

open ScopeStore

/-- The handles are those of the numbered scopes. -/
structure Represents {α : Type} (c : ScopeClient α) (r : NumberedStore α) : Prop where
  consistent : c.store.Consistent
  counted : c.store.Counted
  opened : c.handles.length = c.store.opened + 1
  length : c.handles.length = r.scopes.length
  nodup : c.handles.Nodup
  first : c.handles[0]? = some global
  live_mem : ∀ id, c.store.isLive id = true → id ∈ c.handles
  live : ∀ n id s, c.handles[n]? = some id → r.live? n = some s →
    c.store.scope? id = some ⟨s.parent.map c.handle, s.bindings⟩
  past : ∀ n id, c.handles[n]? = some id → r.live? n = none → c.store.Past id
  older : ∀ n s parent, r.live? n = some s → s.parent = some parent → parent < n

namespace Represents

variable {α : Type} {c : ScopeClient α} {r : NumberedStore α}

theorem initial : Represents (ScopeClient.initial : ScopeClient α) .initial where
  consistent := initial_consistent
  counted := .initial
  opened := rfl
  length := rfl
  nodup := List.nodup_singleton _
  first := rfl
  live_mem id h := (Stack.initial.live_iff id).1 h
  live n id s hn hs := by
    cases n with
    | zero =>
      cases hn
      cases hs
      rfl
    | succ n => cases hn
  past n id hn hr := by
    cases n with
    | zero => cases hr
    | succ n => cases hn
  older n s parent hs hp := by
    cases n with
    | zero =>
      cases hs
      cases hp
    | succ n => cases hs

theorem handle_of_getElem? {n : Nat} {id : ScopeId} (hn : c.handles[n]? = some id) : c.handle n = id := by
  rw [ScopeClient.handle, List.getD_eq_getElem?_getD, hn]
  rfl

theorem getElem?_handle {n : Nat} (hn : n < c.handles.length) : c.handles[n]? = some (c.handle n) := by
  rw [ScopeClient.handle, List.getD_eq_getElem?_getD, List.getElem?_eq_getElem hn]
  rfl

theorem lt_of_live? {n : Nat} {s : NumberedScope α} (hs : r.live? n = some s) : n < r.scopes.length := by
  obtain ⟨h, -⟩ := Option.filter_eq_some_iff.1 hs
  exact (List.getElem?_eq_some_iff.1 h).1

theorem isLive_handle (h : Represents c r) {n : Nat} (hn : n < c.handles.length) :
    c.store.isLive (c.handle n) = r.isLive n := by
  unfold NumberedStore.isLive
  cases hs : r.live? n with
  | none => exact (h.past n _ (getElem?_handle hn) hs).not_live
  | some s => exact isLive_iff.2 ⟨_, h.live n _ s (getElem?_handle hn) hs⟩

/-- The number of a live handle. -/
theorem exists_number (h : Represents c r) {id : ScopeId} {s : Scope α} (hs : c.store.scope? id = some s) :
    ∃ n t, c.handles[n]? = some id ∧ r.live? n = some t ∧ s = ⟨t.parent.map c.handle, t.bindings⟩ := by
  obtain ⟨n, hn⟩ := List.mem_iff_getElem?.1 (h.live_mem id (isLive_iff.2 ⟨s, hs⟩))
  cases ht : r.live? n with
  | none =>
    have := (h.past n id hn ht).not_live
    rw [isLive, hs] at this
    cases this
  | some t =>
    have := h.live n id t hn ht
    rw [hs] at this
    exact ⟨n, t, hn, ht, Option.some.inj this⟩

/-- A handle has one number. -/
theorem eq_of_handle (h : Represents c r) {k n : Nat} (hk : c.handles[k]? = some (c.handle n))
    (hn : n < c.handles.length) : k = n := by
  rw [← getElem?_handle hn] at hk
  exact ((List.getElem?_inj hn h.nodup).1 hk.symm).symm

theorem idxOf_handle (h : Represents c r) {n : Nat} (hn : n < c.handles.length) :
    c.handles.idxOf (c.handle n) = n := by
  have hmem : c.handle n ∈ c.handles := List.mem_of_getElem? (getElem?_handle hn)
  refine h.eq_of_handle ?_ hn
  rw [List.getElem?_eq_getElem (List.idxOf_lt_length_of_mem hmem), List.getElem_idxOf]

/-- Scopes are inside those opened before them. -/
theorem aged (h : Represents c r) : c.store.Aged fun id => c.handles.idxOf id := by
  intro id s parent hs hp _
  obtain ⟨n, t, hn, ht, rfl⟩ := h.exists_number hs
  obtain ⟨p, htp, rfl⟩ := Option.map_eq_some_iff.1 hp
  have hlt : p < n := h.older n t p ht htp
  have hlen : n < c.handles.length := (List.getElem?_eq_some_iff.1 hn).1
  show c.handles.idxOf (c.handle p) < c.handles.idxOf id
  rw [← handle_of_getElem? hn, h.idxOf_handle hlen, h.idxOf_handle (Nat.lt_trans hlt hlen)]
  exact hlt

/-- From a number and from its handle the same scope is found, or none. -/
theorem exists_walk (h : Represents c r) (name : String) {n : Nat} (hn : n < c.handles.length) :
    ∃ e, c.store.Walk name (c.handle n) e ∧
      match r.binder? name n with
      | some (k, s) => r.live? k = some s ∧ s.bindings.contains name = true ∧
        e = .found (c.handle k) ⟨s.parent.map c.handle, s.bindings⟩
      | none => e.binder? = none := by
  induction n using Nat.strongRecOn with
  | ind n ih =>
    rw [NumberedStore.binder?]
    cases hs : r.live? n with
    | none =>
      have hdead : c.store.scope? (c.handle n) = none := by
        have := h.isLive_handle hn
        rwa [NumberedStore.isLive, hs, isLive, Option.isSome_none, Option.isSome_eq_false_iff,
          Option.isNone_iff_eq_none] at this
      exact ⟨_, .released hdead, rfl⟩
    | some s =>
      have hscope := h.live n _ s (getElem?_handle hn) hs
      cases hb : s.bindings.contains name with
      | true => exact ⟨_, .found hscope hb, by simp [hs, hb]⟩
      | false =>
        cases hp : s.parent with
        | none => exact ⟨_, .outside hscope hb (by rw [hp]; rfl), by simp [hb, hp, WalkEnd.binder?]⟩
        | some parent =>
          have hlt := h.older n s parent hs hp
          obtain ⟨e, hw, he⟩ := ih parent hlt (Nat.lt_trans hlt hn)
          exact ⟨e, .outward hscope hb (by rw [hp]; rfl) hw, by simpa [hb, hp, hlt] using he⟩

theorem binder?_handle (h : Represents c r) (name : String) {n : Nat} (hn : n < c.handles.length) :
    match r.binder? name n with
    | some (k, s) => r.live? k = some s ∧ s.bindings.contains name = true ∧
      c.store.binder? (c.handle n) name = some (c.handle k, ⟨s.parent.map c.handle, s.bindings⟩)
    | none => c.store.binder? (c.handle n) name = none := by
  obtain ⟨e, hw, he⟩ := h.exists_walk name hn
  rw [h.aged.binder?_eq hw]
  cases hb : r.binder? name n with
  | none => simpa [hb] using he
  | some p =>
    simp only [hb] at he
    obtain ⟨hl, hc, rfl⟩ := he
    exact ⟨hl, hc, rfl⟩

theorem lookup_handle (h : Represents c r) (name : String) {n : Nat} (hn : n < c.handles.length) :
    c.store.lookup (c.handle n) name = r.lookup n name := by
  have hbinder := h.binder?_handle name hn
  unfold ScopeStore.lookup NumberedStore.lookup
  cases hb : r.binder? name n with
  | none =>
    simp only [hb] at hbinder
    rw [hbinder]
    rfl
  | some p =>
    simp only [hb] at hbinder
    rw [hbinder.2.2]
    rfl

theorem liveCount_eq (h : Represents c r) : c.store.liveCount = r.liveCount := by
  have hlive : ∀ id, c.store.isLive id = true ↔ id ∈ c.handles.filter c.store.isLive := fun id => by
    rw [List.mem_filter]
    exact ⟨fun hl => ⟨h.live_mem id hl, hl⟩, fun hm => hm.2⟩
  rw [liveCount_eq_length hlive (h.nodup.filter _), ← List.countP_eq_length_filter, NumberedStore.liveCount,
    countP_eq_countP_range _ c.handles, countP_eq_countP_range _ r.scopes, ← h.length]
  refine List.countP_congr fun n hn => ?_
  have hlt := List.mem_range.1 hn
  rw [getElem?_handle hlt, Option.any_some, h.isLive_handle hlt, NumberedStore.isLive, NumberedStore.live?]
  cases r.scopes[n]? <;> simp [Option.filter]

end Represents

/-! ## What requests change -/

namespace NumberedStore

variable {α : Type} {r : NumberedStore α}

theorem live?_push (parent n : Nat) : (r.push parent).2.live? n =
    if n = r.scopes.length then some ⟨some parent, .empty, false⟩ else r.live? n := by
  unfold live? push
  rw [List.getElem?_append, List.getElem?_singleton]
  split
  next hlt => rw [if_neg (Nat.ne_of_lt hlt)]
  next hge =>
    by_cases hn : n = r.scopes.length
    · simp [hn]
    · have : n - r.scopes.length ≠ 0 := by omega
      rw [if_neg hn, if_neg this, List.getElem?_eq_none (by omega)]

theorem live?_put {n : Nat} (hn : n < r.scopes.length) (s : NumberedScope α) (k : Nat) :
    (r.put n s).live? k = if k = n then (if s.released then none else some s) else r.live? k := by
  unfold live? put
  by_cases hk : k = n
  · subst hk
    rw [List.getElem?_set_self hn, if_pos rfl]
    cases hr : s.released <;> simp [Option.filter, hr]
  · rw [List.getElem?_set_ne (Ne.symm hk), if_neg hk]

end NumberedStore

namespace ScopeClient

variable {α : Type} {c : ScopeClient α}

theorem getElem?_push (parent n : Nat) : (c.push parent).2.handles[n]? =
    if n = c.handles.length then some (c.push parent).1 else c.handles[n]? := by
  show (c.handles ++ [(c.push parent).1])[n]? = _
  rw [List.getElem?_append, List.getElem?_singleton]
  split
  next hlt => rw [if_neg (Nat.ne_of_lt hlt)]
  next hge =>
    by_cases hn : n = c.handles.length
    · simp [hn]
    · have : n - c.handles.length ≠ 0 := by omega
      rw [if_neg hn, if_neg this, List.getElem?_eq_none (by omega)]

theorem handle_push {parent n : Nat} (hn : n < c.handles.length) : (c.push parent).2.handle n = c.handle n := by
  unfold handle
  rw [List.getD_eq_getElem?_getD, List.getD_eq_getElem?_getD, getElem?_push, if_neg (Nat.ne_of_lt hn)]

end ScopeClient

/-! ## What requests keep -/

namespace Represents

variable {α : Type} {c : ScopeClient α} {r : NumberedStore α}

theorem push_not_mem (h : Represents c r) (parent : Nat) : (c.push parent).1 ∉ c.handles := by
  intro hm
  obtain ⟨n, hn⟩ := List.mem_iff_getElem?.1 hm
  cases hs : r.live? n with
  | none =>
    have hpast : Past c.store (c.store.push (c.handle parent)).1 := h.past n _ hn hs
    unfold Past at hpast
    rw [← (generation_push (c.handle parent) 0).2] at hpast
    exact Nat.lt_irrefl _ hpast
  | some s =>
    have hlive : c.store.scope? (c.store.push (c.handle parent)).1 = _ := h.live n _ s hn hs
    rw [(scope?_push h.consistent (c.handle parent)).1] at hlive
    cases hlive

/-- A new scope gets a handle that has not been given out before. -/
theorem push (h : Represents c r) {parent : Nat} (hp : parent < c.handles.length) :
    Represents (c.push parent).2 (r.push parent).2 := by
  have hpush : ∀ other, (c.push parent).2.store.scope? other =
      if other = (c.push parent).1 then some ⟨some (c.handle parent), .empty⟩ else c.store.scope? other :=
    (scope?_push h.consistent (c.handle parent)).2.2
  have hnew := h.push_not_mem parent
  have hlen : (c.push parent).2.handles.length = c.handles.length + 1 := by
    show (c.handles ++ [(c.push parent).1]).length = _
    rw [List.length_append]
    rfl
  have hlen' : (r.push parent).2.scopes.length = r.scopes.length + 1 := by
    show (r.scopes ++ [_]).length = _
    rw [List.length_append]
    rfl
  refine ⟨push_consistent h.consistent _, h.counted.push h.consistent _, ?_, ?_, ?_, ?_, fun id hl => ?_,
    fun n id s hn hs => ?_, fun n id hn hs => ?_, fun n s p hs hsp => ?_⟩
  · rw [hlen, h.opened]
    exact congrArg (· + 1) (push_opened _).symm
  · rw [hlen, hlen', h.length]
  · show (c.handles ++ [(c.push parent).1]).Nodup
    rw [← List.concat_eq_append]
    exact h.nodup.concat hnew
  · rw [ScopeClient.getElem?_push, if_neg (by have := h.opened; omega), h.first]
  · by_cases he : id = (c.push parent).1
    · exact List.mem_append_right _ (List.mem_singleton.2 he)
    · refine List.mem_append_left _ (h.live_mem id ?_)
      rwa [isLive, hpush, if_neg he] at hl
  · rw [ScopeClient.getElem?_push, h.length] at hn
    rw [NumberedStore.live?_push] at hs
    rw [hpush]
    split at hn
    next he =>
      rw [if_pos he] at hs
      cases hn
      cases hs
      rw [if_pos rfl, Option.map_some, ScopeClient.handle_push hp]
    next he =>
      rw [if_neg he] at hs
      have hlt : n < c.handles.length := (List.getElem?_eq_some_iff.1 hn).1
      have hne : id ≠ (c.push parent).1 := fun he => hnew (he ▸ List.mem_of_getElem? hn)
      rw [if_neg hne, h.live n id s hn hs]
      cases hsp : s.parent with
      | none => rfl
      | some p =>
        rw [Option.map_some, Option.map_some, ScopeClient.handle_push (Nat.lt_trans (h.older n s p hs hsp) hlt)]
  · rw [ScopeClient.getElem?_push, h.length] at hn
    rw [NumberedStore.live?_push] at hs
    split at hn
    next he =>
      rw [if_pos he] at hs
      cases hs
    next he =>
      rw [if_neg he] at hs
      exact (h.past n id hn hs).of_generation fun slot => (generation_push _ slot).1
  · rw [NumberedStore.live?_push] at hs
    split at hs
    next he =>
      cases hs
      cases hsp
      rw [he, ← h.length]
      exact hp
    next he => exact h.older n s p hs hsp

/-- New bindings of a scope. -/
theorem store (h : Represents c r) {n : Nat} {s : NumberedScope α} (hn : n < c.handles.length)
    (hs : r.live? n = some s) (b : Bindings α) :
    Represents ⟨c.store.store (c.handle n) ⟨s.parent.map c.handle, b⟩, c.handles⟩
      (r.put n { s with bindings := b }) := by
  have hlive : c.store.isLive (c.handle n) = true :=
    isLive_iff.2 ⟨_, h.live n _ s (getElem?_handle hn) hs⟩
  have hreleased : s.released = false := by
    obtain ⟨-, hr⟩ := Option.filter_eq_some_iff.1 hs
    simpa using hr
  have hput : ∀ k, (r.put n { s with bindings := b }).live? k =
      if k = n then some { s with bindings := b } else r.live? k := fun k => by
    rw [NumberedStore.live?_put (h.length ▸ hn)]
    simp only [hreleased, Bool.false_eq_true, if_false]
  refine ⟨store_consistent h.consistent hlive, h.counted.of_live (generation_store hlive) (isLive_store hlive) rfl,
    h.opened, ?_, h.nodup, h.first, fun id hl => ?_, fun k id t hk ht => ?_, fun k id hk ht => ?_,
    fun k t p ht hp => ?_⟩
  · rw [h.length]
    exact List.length_set.symm
  · exact h.live_mem id (by rwa [isLive_store hlive] at hl)
  · rw [hput] at ht
    replace hk : c.handles[k]? = some id := hk
    show (c.store.store (c.handle n) _).scope? id = _
    rw [scope?_store hlive]
    split at ht
    next he =>
      cases ht
      rw [← handle_of_getElem? hk, he, if_pos rfl]
      rfl
    next he =>
      rw [if_neg fun hid : id = c.handle n => he (h.eq_of_handle (hid ▸ hk) hn)]
      exact h.live k id t hk ht
  · rw [hput] at ht
    split at ht
    next => cases ht
    next => exact (h.past k id hk ht).of_generation (generation_store hlive)
  · rw [hput] at ht
    split at ht
    next he =>
      cases ht
      exact he ▸ h.older n s p hs hp
    next => exact h.older k t p ht hp

/-- A released scope is past, and those that were past stay so. -/
theorem release (h : Represents c r) {n : Nat} (hn : n < c.handles.length) (ho : c.store.opened < 2 ^ 32) :
    Represents ⟨c.store.release (c.handle n), c.handles⟩ (r.release n) := by
  have hsame := h.isLive_handle hn
  unfold NumberedStore.release
  cases hs : r.live? n with
  | none =>
    have hdead : c.store.isLive (c.handle n) = false := by rw [hsame, NumberedStore.isLive, hs]; rfl
    unfold ScopeStore.release
    rw [if_pos (.inr hdead)]
    exact h
  | some s =>
    have hlive : c.store.isLive (c.handle n) = true := by rw [hsame, NumberedStore.isLive, hs]; rfl
    by_cases hzero : n = 0
    · have hglobal : c.handle n = global := handle_of_getElem? (by rw [hzero]; exact h.first)
      unfold ScopeStore.release
      rw [if_pos (.inl hglobal)]
      simp only [hzero, if_true]
      exact h
    · have hglobal : c.handle n ≠ global := fun he => hzero (h.eq_of_handle (he ▸ h.first) hn).symm
      have hput : ∀ k, (r.put n { s with released := true }).live? k = if k = n then none else r.live? k := fun k => by
        rw [NumberedStore.live?_put (h.length ▸ hn)]
        rfl
      simp only [hzero, if_false]
      refine ⟨release_consistent h.consistent _, h.counted.release hlive hglobal ho, ?_, ?_, h.nodup, h.first,
        fun id hl => ?_, fun k id t hk ht => ?_, fun k id hk ht => ?_, fun k t p ht hp => ?_⟩
      · rw [h.opened, release_opened]
      · rw [h.length]
        exact List.length_set.symm
      · rw [isLive, scope?_release hlive hglobal] at hl
        split at hl
        · cases hl
        · exact h.live_mem id hl
      · rw [hput] at ht
        split at ht
        next => cases ht
        next he =>
          show (c.store.release (c.handle n)).scope? id = _
          rw [scope?_release hlive hglobal, if_neg fun hid : id = c.handle n => he (h.eq_of_handle (hid ▸ hk) hn)]
          exact h.live k id t hk ht
      · rw [hput] at ht
        replace hk : c.handles[k]? = some id := hk
        refine h.counted.past_release hlive hglobal ho ?_
        split at ht
        next he => exact .inl (by rw [← handle_of_getElem? hk, he])
        next => exact .inr (h.past k id hk ht)
      · rw [hput] at ht
        split at ht
        next => cases ht
        next => exact h.older k t p ht hp

/-- Both stores give the same answer, and stay together. -/
theorem answer (h : Represents c r) {q : StoreRequest α} (hq : ∀ n ∈ q.scope?, n < c.handles.length)
    (ho : c.store.opened < 2 ^ 32) :
    (c.answer q).1 = (r.answer q).1 ∧ Represents (c.answer q).2 (r.answer q).2 := by
  cases q with
  | push parent =>
    refine ⟨?_, h.push (hq parent rfl)⟩
    show StoreAnswer.opened ((c.handles ++ [(c.push parent).1]).idxOf (c.push parent).1) = .opened r.scopes.length
    rw [List.idxOf_append_of_notMem (h.push_not_mem parent), List.idxOf_cons_self, Nat.add_zero, h.length]
  | release n => exact ⟨rfl, h.release (hq n rfl) ho⟩
  | define n name v =>
    have hn : n < c.handles.length := hq n rfl
    refine ⟨rfl, ?_⟩
    show Represents ⟨c.store.define (c.handle n) name v, c.handles⟩ (r.define n name v)
    unfold NumberedStore.define
    cases hs : r.live? n with
    | none =>
      have hdead : c.store.scope? (c.handle n) = none := by
        have := h.isLive_handle hn
        rwa [NumberedStore.isLive, hs, isLive, Option.isSome_none, Option.isSome_eq_false_iff,
          Option.isNone_iff_eq_none] at this
      rw [define_eq_of_dead hdead]
      exact h
    | some s =>
      rw [define_eq_of_live (h.live n _ s (getElem?_handle hn) hs)]
      exact h.store hn hs _
  | assign n name v =>
    have hn : n < c.handles.length := hq n rfl
    have hbinder := h.binder?_handle name hn
    cases hb : r.binder? name n with
    | none =>
      simp only [hb] at hbinder
      have hst : c.store.assign? (c.handle n) name v = none := by rw [ScopeStore.assign?, hbinder]; rfl
      have hr : r.assign? n name v = none := by rw [NumberedStore.assign?, hb]; rfl
      simp only [ScopeClient.answer, NumberedStore.answer, hst, hr]
      exact ⟨trivial, h⟩
    | some p =>
      obtain ⟨k, s⟩ := p
      simp only [hb] at hbinder
      obtain ⟨hs, -, hfound⟩ := hbinder
      have hst : c.store.assign? (c.handle n) name v =
          some (c.store.store (c.handle k) ⟨s.parent.map c.handle, s.bindings.insert name v⟩) := by
        rw [ScopeStore.assign?, hfound]
        rfl
      have hr : r.assign? n name v = some (r.put k { s with bindings := s.bindings.insert name v }) := by
        rw [NumberedStore.assign?, hb]
        rfl
      simp only [ScopeClient.answer, NumberedStore.answer, hst, hr]
      exact ⟨trivial, h.store (h.length ▸ lt_of_live? hs) hs _⟩
  | lookup n name => exact ⟨congrArg StoreAnswer.value (h.lookup_handle name (hq n rfl)), h⟩
  | isLive n => exact ⟨congrArg StoreAnswer.live (h.isLive_handle (hq n rfl)), h⟩
  | liveCount => exact ⟨congrArg StoreAnswer.count h.liveCount_eq, h⟩

theorem length_answer (c : ScopeClient α) (q : StoreRequest α) :
    (c.answer q).2.handles.length = c.handles.length + if q.opens then 1 else 0 := by
  cases q with
  | push parent =>
    show (c.handles ++ [(c.push parent).1]).length = _
    rw [List.length_append]
    rfl
  | assign n name v =>
    rw [ScopeClient.answer]
    cases c.store.assign? (c.handle n) name v <;> rfl
  | _ => rfl

/-- A handle whose scope has been released stays past. -/
theorem past_answer (h : Represents c r) (ho : c.store.opened < 2 ^ 32) {id : ScopeId} (hp : c.store.Past id)
    (q : StoreRequest α) : (c.answer q).2.store.Past id := by
  cases q with
  | push parent => exact hp.of_generation fun slot => (generation_push _ slot).1
  | release n =>
    show (c.store.release (c.handle n)).Past id
    by_cases hr : c.handle n = global ∨ c.store.isLive (c.handle n) = false
    · rwa [ScopeStore.release, if_pos hr]
    · rw [not_or, Bool.not_eq_false] at hr
      exact h.counted.past_release hr.2 hr.1 ho (.inr hp)
  | define n name v => exact hp.of_generation fun slot => generation_define name v slot
  | assign n name v =>
    rw [ScopeClient.answer]
    cases ha : c.store.assign? (c.handle n) name v with
    | none => exact hp
    | some st =>
      obtain ⟨owner, s, -, hs, -, rfl⟩ := assign?_eq_some ha
      exact hp.of_generation (generation_store (isLive_iff.2 ⟨s, hs⟩))
  | _ => exact hp

/-- Over any number of requests the answers are the same, the stores stay together, and what is past stays so. -/
theorem answers (h : Represents c r) {qs : List (StoreRequest α)} (hq : StoreRequest.AllKnown c.handles.length qs)
    (ho : c.store.opened + qs.countP StoreRequest.opens < 2 ^ 32) :
    c.answers qs = r.answers qs ∧ Represents (c.after qs) (r.after qs) ∧
      (c.after qs).handles.length = c.handles.length + qs.countP StoreRequest.opens ∧
      ∀ id, c.store.Past id → (c.after qs).store.Past id := by
  induction qs generalizing c r with
  | nil => exact ⟨rfl, h, rfl, fun _ hp => hp⟩
  | cons q qs ih =>
    obtain ⟨hknown, hrest⟩ := hq
    rw [List.countP_cons] at ho ⊢
    obtain ⟨hanswer, hafter⟩ := h.answer hknown (by omega)
    have hlen := length_answer c q
    rw [← hlen] at hrest
    have hopened : (c.answer q).2.store.opened + qs.countP StoreRequest.opens < 2 ^ 32 := by
      have h₁ := h.opened
      have h₂ := hafter.opened
      omega
    obtain ⟨hanswers, hfinal, hlength, hpast⟩ := ih hafter hrest hopened
    refine ⟨by rw [ScopeClient.answers, NumberedStore.answers, hanswer, hanswers], hfinal, ?_, fun id hp => ?_⟩
    · show ((c.answer q).2.after qs).handles.length = _
      rw [hlength, hlen]
      omega
    · exact hpast id (h.past_answer (by omega) hp q)

end Represents

theorem StoreRequest.allKnown_append {α : Type} {early late : List (StoreRequest α)} {count : Nat}
    (h : AllKnown count (early ++ late)) :
    AllKnown count early ∧ AllKnown (count + early.countP opens) late := by
  induction early generalizing count with
  | nil => exact ⟨trivial, h⟩
  | cons q early ih =>
    obtain ⟨hq, hrest⟩ := h
    obtain ⟨he, hl⟩ := ih hrest
    refine ⟨⟨hq, he⟩, ?_⟩
    rwa [List.countP_cons, Nat.add_comm (early.countP opens), ← Nat.add_assoc]

/-- The use of slots for one scope after another goes unnoticed. Of requests that name only scopes which have been
opened, and fewer than 2³² of which open one, each has the answer of the store in which every scope has a number of its
own. All handles given out differ, and live ones also in their slots; a scope that has been released is never live
again; and a walk outward from any handle comes to an end, where the store finds the value of a name if there is one. -/
theorem answers_eq_numbered {α : Type} (qs : List (StoreRequest α)) (hq : StoreRequest.AllKnown 1 qs)
    (ho : qs.countP StoreRequest.opens < 2 ^ 32) :
    let c := ScopeClient.initial.after qs
    ScopeClient.initial.answers qs = NumberedStore.initial.answers qs ∧
    c.handles.Nodup ∧
    (∀ id ∈ c.handles, ∀ other ∈ c.handles, c.store.isLive id = true → c.store.isLive other = true →
      id.slot = other.slot → id = other) ∧
    (∀ early late, qs = early ++ late → ∀ id ∈ (ScopeClient.initial.after early).handles,
      (ScopeClient.initial.after early).store.isLive id = false → c.store.isLive id = false) ∧
    ∀ id ∈ c.handles, ∀ name, ∃ e, c.store.Walk name id e ∧ c.store.binder? id name = e.binder? := by
  intro c
  have hinitial : (ScopeClient.initial : ScopeClient α).store.opened = 0 := rfl
  obtain ⟨hanswers, hfinal, -, -⟩ := (Represents.initial (α := α)).answers hq (by rwa [hinitial, Nat.zero_add])
  refine ⟨hanswers, hfinal.nodup, fun id _ other _ hl hl' => eq_of_isLive hl hl', fun early late he id hid hdead => ?_,
    fun id _ name => hfinal.aged.exists_walk id name⟩
  subst he
  rw [List.countP_append] at ho
  obtain ⟨hearly, hlate⟩ := StoreRequest.allKnown_append hq
  obtain ⟨-, hthen, hlength, -⟩ := (Represents.initial (α := α)).answers hearly (by rw [hinitial]; omega)
  have hopened := hthen.opened
  rw [hlength, show (ScopeClient.initial : ScopeClient α).handles.length = 1 from rfl] at hopened
  obtain ⟨-, -, -, hpast⟩ := hthen.answers (by rwa [hlength]) (by omega)
  obtain ⟨n, hn⟩ := List.mem_iff_getElem?.1 hid
  have hnone : (NumberedStore.initial.after early).live? n = none := by
    cases hs : (NumberedStore.initial.after early).live? n with
    | none => rfl
    | some s =>
      rw [isLive_iff.2 ⟨_, hthen.live n id s hn hs⟩] at hdead
      cases hdead
  have hafter : c = (ScopeClient.initial.after early).after late := List.foldl_append
  rw [hafter]
  exact (hpast id (hthen.past n id hn hnone)).not_live

/-- Parents are released before their children, one of them twice, and the slot of one is used again. -/
theorem reused_slot_answers :
    let qs : List (StoreRequest Nat) := [.define 0 "x" 1, .push 0, .push 1, .define 1 "y" 2, .release 1, .release 1,
      .lookup 2 "y", .push 0, .define 3 "y" 3, .lookup 2 "y", .lookup 1 "y", .assign 3 "x" 4, .lookup 0 "x", .liveCount]
    StoreRequest.AllKnown 1 qs ∧ qs.countP StoreRequest.opens < 2 ^ 32 ∧
      ScopeClient.initial.answers qs = NumberedStore.initial.answers qs ∧
      ScopeClient.initial.answers qs = [.done, .opened 1, .opened 2, .done, .done, .done, .value none, .opened 3, .done,
        .value none, .value none, .assigned true, .value (some 4), .count 3] := by
  intro qs
  have hq : StoreRequest.AllKnown 1 qs := by decide
  have ho : qs.countP StoreRequest.opens < 2 ^ 32 := by decide
  exact ⟨hq, ho, (answers_eq_numbered qs hq ho).1, by decide +kernel⟩

/-! ## How many slots are used -/

namespace ScopeClient

variable {α : Type} {c : ScopeClient α}

/-- The handles given out are of slots that there are. -/
structure Slotted (c : ScopeClient α) : Prop where
  consistent : c.store.Consistent
  packed : c.store.Packed
  slot_lt : ∀ id ∈ c.handles, id.slot < c.store.slots.size

namespace Slotted

theorem initial : (ScopeClient.initial : ScopeClient α).Slotted where
  consistent := initial_consistent
  packed := initial_packed
  slot_lt := List.forall_mem_singleton.2 (Nat.lt_succ_self 0)

/-- No request makes slots but for live scopes. -/
theorem answer (h : c.Slotted) (q : StoreRequest α) : (c.answer q).2.Slotted ∧
    ((c.answer q).2.store.slots.size = c.store.slots.size ∨
      (c.answer q).2.store.slots.size = (c.answer q).2.store.liveCount) := by
  cases q with
  | push parent =>
    obtain ⟨hslot, hle, hsize⟩ := slot_push_lt h.consistent h.packed (c.handle parent)
    refine ⟨⟨push_consistent h.consistent _, push_packed h.packed _, fun id hid => ?_⟩, hsize⟩
    rcases List.mem_append.1 hid with hid | hid
    · exact Nat.lt_of_lt_of_le (h.slot_lt id hid) hle
    · rw [List.mem_singleton.1 hid]
      exact hslot
  | release n =>
    have hsize := size_release c.store (c.handle n)
    exact ⟨⟨release_consistent h.consistent _, release_packed h.packed _, fun id hid =>
      Nat.lt_of_lt_of_eq (h.slot_lt id hid) hsize.symm⟩, .inl hsize⟩
  | define n name v =>
    have hsize := size_define c.store (c.handle n) name v
    exact ⟨⟨define_consistent h.consistent _ name v, define_packed h.packed _ name v, fun id hid =>
      Nat.lt_of_lt_of_eq (h.slot_lt id hid) hsize.symm⟩, .inl hsize⟩
  | assign n name v =>
    rw [ScopeClient.answer]
    cases ha : c.store.assign? (c.handle n) name v with
    | none => exact ⟨h, .inl rfl⟩
    | some st =>
      obtain ⟨owner, s, -, hs, -, rfl⟩ := assign?_eq_some ha
      have hsize := size_store c.store owner { s with bindings := s.bindings.insert name v }
      exact ⟨⟨store_consistent h.consistent (isLive_iff.2 ⟨s, hs⟩), store_packed h.packed owner _, fun id hid =>
        Nat.lt_of_lt_of_eq (h.slot_lt id hid) hsize.symm⟩, .inl hsize⟩
  | lookup | isLive | liveCount => exact ⟨h, .inl rfl⟩

theorem after (h : c.Slotted) {bound : Nat} (hsize : c.store.slots.size ≤ bound) {qs : List (StoreRequest α)}
    (hl : ∀ early late, qs = early ++ late → (c.after early).store.liveCount ≤ bound) :
    (c.after qs).Slotted ∧ (c.after qs).store.slots.size ≤ bound := by
  induction qs generalizing c with
  | nil => exact ⟨h, hsize⟩
  | cons q qs ih =>
    obtain ⟨hslotted, hnew⟩ := h.answer q
    refine ih hslotted ?_ fun early late he => hl (q :: early) late (congrArg (q :: ·) he)
    rcases hnew with he | he
    · exact he ▸ hsize
    · exact he ▸ hl [q] qs rfl

end Slotted

/-- While no more than so many scopes are live at once, all handles are of slots below that number. So a slot can be
written with 32 bits unless 2³² scopes are live. -/
theorem slot_lt_of_liveCount_le {bound : Nat} {qs : List (StoreRequest α)}
    (hl : ∀ early late, qs = early ++ late →
      ((ScopeClient.initial : ScopeClient α).after early).store.liveCount ≤ bound) :
    ∀ id ∈ ((ScopeClient.initial : ScopeClient α).after qs).handles, id.slot < bound := by
  obtain ⟨hslotted, hsize⟩ := Slotted.initial.after (hl [] qs rfl) hl
  exact fun id hid => Nat.lt_of_lt_of_le (hslotted.slot_lt id hid) hsize

end ScopeClient

end QueryTemplate
