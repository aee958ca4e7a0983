import QueryTemplate.Proofs.Interpreter.Process
import QueryTemplate.Proofs.Scope.Walk

/-!
# Nested blocks and calls

A step of a process opens a scope and begins a block or call, or releases one and ends the innermost, or leaves the
scopes as they are but for what is bound in them (`Process.Step.move`). So in a process that has begun with the global
scope alone the live scopes are the global one and those of the blocks and calls in progress, each inside one that was
opened before it (`Process.Nested`). Then no walk outward comes to a scope that is not live (`Process.Nested.walk`).
-/

namespace QueryTemplate

open EvalM

/-! ## Scopes and what is bound in them -/

namespace ScopeStore

variable {st st' : ScopeStore Value} {id current : ScopeId}

theorem isLive_iff_parent? : st.isLive id = true ↔ ∃ p, st.parent? id = some p := by
  rw [isLive, parent?, ← Option.isSome_iff_exists, Option.isSome_map]

theorem isLive_congr_parent? (h : st'.parent? id = st.parent? id) : st'.isLive id = st.isLive id := by
  have hs := congrArg Option.isSome h
  rwa [parent?, parent?, Option.isSome_map, Option.isSome_map] at hs

/-- What binding a name in a live scope, or giving a name a value, leaves as it was. -/
structure SameScopes (st st' : ScopeStore Value) : Prop where
  consistent : st'.Consistent
  parent? : ∀ id, st'.parent? id = st.parent? id
  generation : ∀ slot, st'.generation slot = st.generation slot
  opened : st'.opened = st.opened

theorem sameScopes_store {owner : ScopeId} {s : Scope Value} {bindings : Bindings Value} (hc : st.Consistent)
    (hs : st.scope? owner = some s) : st.SameScopes (st.store owner { s with bindings }) := by
  have hl : st.isLive owner = true := isLive_iff.2 ⟨s, hs⟩
  refine ⟨store_consistent hc hl, fun id => ?_, generation_store hl, rfl⟩
  rw [ScopeStore.parent?, ScopeStore.parent?, scope?_store hl]
  split
  next he => rw [he, hs]; rfl
  next => rfl

theorem Rebound.sameScopes (h : st.Rebound current st') (hc : st.Consistent) : st.SameScopes st' := by
  cases h with
  | same => exact ⟨hc, fun _ => rfl, fun _ => rfl, rfl⟩
  | defined name v =>
    cases hs : st.scope? current with
    | none =>
      rw [define_eq_of_dead hs]
      exact ⟨hc, fun _ => rfl, fun _ => rfl, rfl⟩
    | some s =>
      rw [define_eq_of_live hs]
      exact sameScopes_store hc hs
  | assigned h =>
    obtain ⟨owner, s, -, hs, -, rfl⟩ := assign?_eq_some h
    exact sameScopes_store hc hs

end ScopeStore

/-! ## Steps -/

namespace Activation

/-- The scope that is current in blocks and calls in progress. -/
def innermost : List Activation → ScopeId
  | [] => ScopeStore.global
  | a :: _ => a.scope

/-- The scopes of blocks and calls in progress, and the global one. -/
def scopes (as : List Activation) : List ScopeId := as.map scope ++ [ScopeStore.global]

variable {as : List Activation} {id : ScopeId}

theorem mem_scopes : id ∈ scopes as ↔ id = ScopeStore.global ∨ ∃ a ∈ as, a.scope = id := by
  rw [scopes, List.mem_append, List.mem_map, List.mem_singleton, or_comm]

theorem innermost_mem_scopes (as : List Activation) : innermost as ∈ scopes as := by
  cases as with
  | nil => exact List.mem_cons_self
  | cons a as => exact List.mem_cons_self

end Activation

namespace Process

/-- What a step does to the scopes. -/
inductive Move (c d : Process) : Prop
  | stay (activations : d.activations = c.activations) (current : d.machine.current = c.machine.current)
    (scopes : c.machine.scopes.Rebound c.machine.current d.machine.scopes)
  | enter {parent : ScopeId} {bindings : List (String × Value)}
    (live : parent = c.machine.current ∨ c.machine.scopes.isLive parent = true)
    (activations : d.activations = c.machine.activation parent bindings :: c.activations)
    (current : d.machine.current = (c.machine.enter parent bindings).current)
    (scopes : d.machine.scopes = (c.machine.enter parent bindings).scopes)
  | leave {a : Activation} (activations : c.activations = a :: d.activations)
    (current : d.machine.current = a.previous)
    (scopes : d.machine.scopes = c.machine.scopes.release c.machine.current)

theorem Step.move {types : Registry} {limit : Nat} {c d : Process} (h : Step types limit c d) : c.Move d := by
  cases h with
  | @act a fs m =>
    obtain ⟨hc, -, hs⟩ := a.run_acted types m
    simp only [outcome, bind, EStateM.bind]
    cases hr : a.run types m with
    | ok v m' =>
      rw [after_ok hr] at hc hs
      exact .stay rfl hc hs
    | error e m' =>
      rw [after_error hr] at hc hs
      exact .stay rfl hc hs
  | block => exact .enter (.inl rfl) rfl rfl rfl
  | call hl hd => exact .enter (.inr hl) rfl rfl rfl
  | leaveBlock => exact .leave rfl rfl rfl
  | leaveCall => exact .leave rfl rfl rfl
  | _ => exact .stay rfl rfl .same

/-- The live scopes are the global one and those of the blocks and calls in progress, each inside one that was opened
before it. -/
structure Nested (c : Process) : Prop where
  stack : c.machine.scopes.Stack (Activation.scopes c.activations)
  current : c.machine.current = Activation.innermost c.activations
  previous : ∀ a as, a :: as <:+ c.activations → a.previous = Activation.innermost as
  numbered : c.activations.Pairwise fun a b => b.number < a.number
  opened : ∀ a ∈ c.activations, a.number < c.machine.scopes.opened
  parent : ∀ a ∈ c.activations, ∃ p, c.machine.scopes.parent? a.scope = some (some p) ∧
    (p = ScopeStore.global ∨ ∃ b ∈ c.activations, b.scope = p ∧ b.number < a.number)
  outermost : c.machine.scopes.parent? ScopeStore.global = some none

namespace Nested

variable {c d : Process} {id : ScopeId}

theorem current_live (h : c.Nested) : c.machine.scopes.isLive c.machine.current = true :=
  (h.stack.live_iff _).2 (h.current ▸ Activation.innermost_mem_scopes _)

/-- In a block or call its own scope is current, and that is not the global one. -/
theorem current_ne_global (h : c.Nested) {a : Activation} {as : List Activation} (ha : c.activations = a :: as) :
    c.machine.current = a.scope ∧ a.scope ≠ ScopeStore.global := by
  have hstack := h.stack
  rw [ha] at hstack
  exact ⟨by rw [h.current, ha]; rfl, hstack.ne_global (List.append_ne_nil_of_right_ne_nil _ (List.cons_ne_nil _ _))⟩

theorem stay (h : c.Nested) (ha : d.activations = c.activations) (hcur : d.machine.current = c.machine.current)
    (hs : c.machine.scopes.SameScopes d.machine.scopes) : d.Nested where
  stack := by
    rw [ha]
    exact h.stack.of_live hs.consistent fun id => ScopeStore.isLive_congr_parent? (hs.parent? id)
  current := by rw [hcur, ha, h.current]
  previous := by rw [ha]; exact h.previous
  numbered := by rw [ha]; exact h.numbered
  opened := by rw [ha, hs.opened]; exact h.opened
  parent := by
    rw [ha]
    intro a hmem
    rw [hs.parent?]
    exact h.parent a hmem
  outermost := by rw [hs.parent?, h.outermost]

theorem enter (h : c.Nested) {parent : ScopeId} {bindings : List (String × Value)}
    (hl : c.machine.scopes.isLive parent = true)
    (ha : d.activations = c.machine.activation parent bindings :: c.activations)
    (hcur : d.machine.current = (c.machine.enter parent bindings).current)
    (hs : d.machine.scopes = (c.machine.enter parent bindings).scopes) : d.Nested := by
  have hc := h.stack.consistent
  obtain ⟨-, hfresh, hglobal, -, -⟩ := enter_spec hc parent bindings
  have hne : ∀ {id}, c.machine.scopes.isLive id = true → id ≠ (c.machine.enter parent bindings).current := by
    rintro id hid rfl
    rw [ScopeStore.isLive, hfresh] at hid
    cases hid
  have hscope : ∀ a ∈ c.activations, c.machine.scopes.isLive a.scope = true := fun a hmem =>
    (h.stack.live_iff _).2 (Activation.mem_scopes.2 (.inr ⟨a, hmem, rfl⟩))
  refine ⟨?_, ?_, ?_, ?_, ?_, ?_, ?_⟩
  · rw [hs, ha]
    exact Machine.enter_stack h.stack parent bindings
  · rw [hcur, ha]
    rfl
  · rw [ha]
    intro a as hsuffix
    rcases List.suffix_cons_iff.1 hsuffix with he | hsuffix
    · cases he
      exact h.current
    · exact h.previous a as hsuffix
  · rw [ha]
    exact List.pairwise_cons.2 ⟨h.opened, h.numbered⟩
  · rw [ha, hs, enter_opened]
    exact List.forall_mem_cons.2 ⟨Nat.lt_succ_self _, fun a hmem => Nat.lt_succ_of_lt (h.opened a hmem)⟩
  · rw [ha, hs]
    refine List.forall_mem_cons.2 ⟨⟨parent, ?_, ?_⟩, fun a hmem => ?_⟩
    · rw [Machine.parent?_enter hc]
      exact if_pos rfl
    · rcases Activation.mem_scopes.1 ((h.stack.live_iff _).1 hl) with hp | ⟨b, hb, hp⟩
      · exact .inl hp
      · exact .inr ⟨b, List.mem_cons_of_mem _ hb, hp, h.opened b hb⟩
    · obtain ⟨p, hp, hlow⟩ := h.parent a hmem
      refine ⟨p, ?_, ?_⟩
      · rw [Machine.parent?_enter hc, if_neg (hne (hscope a hmem)), hp]
      · rcases hlow with hglobal | ⟨b, hb, hrest⟩
        · exact .inl hglobal
        · exact .inr ⟨b, List.mem_cons_of_mem _ hb, hrest⟩
  · rw [hs, Machine.parent?_enter hc, if_neg hglobal.symm, h.outermost]

theorem leave (h : c.Nested) {a : Activation} (ha : c.activations = a :: d.activations)
    (hcur : d.machine.current = a.previous)
    (hs : d.machine.scopes = c.machine.scopes.release c.machine.current) : d.Nested := by
  obtain ⟨hscope, hglobal⟩ := h.current_ne_global ha
  have hstack := h.stack
  rw [ha] at hstack
  have hlive : c.machine.scopes.isLive a.scope = true := (hstack.live_iff _).2 List.mem_cons_self
  have hrest : Activation.scopes d.activations ≠ [] := List.append_ne_nil_of_right_ne_nil _ (List.cons_ne_nil _ _)
  have hrelease := ScopeStore.scope?_release hlive hglobal
  have hnot : a.scope ∉ Activation.scopes d.activations := (List.nodup_cons.1 hstack.nodup).1
  have hparent : ∀ id ∈ Activation.scopes d.activations, d.machine.scopes.parent? id = c.machine.scopes.parent? id := by
    intro id hid
    rw [hs, hscope, ScopeStore.parent?, hrelease, if_neg (fun he : id = a.scope => hnot (he ▸ hid)), ScopeStore.parent?]
  have hnumbered := h.numbered
  rw [ha] at hnumbered
  obtain ⟨hfirst, hnumbered⟩ := List.pairwise_cons.1 hnumbered
  have hmem : ∀ b ∈ d.activations, b ∈ c.activations := fun b hb => ha ▸ List.mem_cons_of_mem _ hb
  refine ⟨?_, ?_, fun b as hsuffix => ?_, hnumbered, fun b hb => ?_, fun b hb => ?_, ?_⟩
  · rw [hs, hscope]
    exact hstack.release hrest
  · rw [hcur, h.previous a d.activations (ha ▸ List.suffix_refl _)]
  · exact h.previous b as (ha ▸ hsuffix.trans (List.suffix_cons _ _))
  · rw [hs, ScopeStore.release_opened]
    exact h.opened b (hmem b hb)
  · obtain ⟨p, hp, hlow⟩ := h.parent b (hmem b hb)
    refine ⟨p, ?_, ?_⟩
    · rw [hparent b.scope (Activation.mem_scopes.2 (.inr ⟨b, hb, rfl⟩)), hp]
    · rcases hlow with hglobal | ⟨b', hb', he, hlt⟩
      · exact .inl hglobal
      · rw [ha] at hb'
        rcases List.mem_cons.1 hb' with rfl | hb'
        · exact absurd hlt (Nat.lt_asymm (hfirst b hb))
        · exact .inr ⟨b', hb', he, hlt⟩
  · rw [hparent _ (Activation.mem_scopes.2 (.inl rfl)), h.outermost]

/-- Opening scopes is counted, and nothing lowers the count. -/
theorem opened_le (h : c.Nested) (hm : c.Move d) : c.machine.scopes.opened ≤ d.machine.scopes.opened := by
  cases hm with
  | stay ha hcur hs => exact Nat.le_of_eq (hs.sameScopes h.stack.consistent).opened.symm
  | enter hl ha hcur hs =>
    rw [hs, enter_opened]
    exact Nat.le_succ _
  | leave ha hcur hs => exact Nat.le_of_eq (by rw [hs, ScopeStore.release_opened])

/-- Steps keep blocks and calls nested. -/
theorem move (h : c.Nested) (hm : c.Move d) : d.Nested := by
  cases hm with
  | stay ha hcur hs => exact h.stay ha hcur (hs.sameScopes h.stack.consistent)
  | enter hl ha hcur hs =>
    refine h.enter ?_ ha hcur hs
    rcases hl with rfl | hl
    · exact h.current_live
    · exact hl
  | leave ha hcur hs => exact h.leave ha hcur hs

theorem steps {types : Registry} {limit : Nat} (h : c.Nested) (hs : Steps types limit c d) : d.Nested := by
  induction hs with
  | refl => exact h
  | tail _ hs ih => exact ih.move hs.move

/-! ## Walks -/

/-- Every live scope but the global one is inside one that is live. -/
theorem parent_live (h : c.Nested) {p : ScopeId} (hp : c.machine.scopes.parent? id = some (some p)) :
    c.machine.scopes.isLive p = true := by
  have hlive : c.machine.scopes.isLive id = true := ScopeStore.isLive_iff_parent?.2 ⟨_, hp⟩
  rcases Activation.mem_scopes.1 ((h.stack.live_iff id).1 hlive) with rfl | ⟨a, ha, rfl⟩
  · rw [h.outermost] at hp
    cases hp
  · obtain ⟨q, hq, hlow⟩ := h.parent a ha
    rw [hq] at hp
    cases hp
    exact (h.stack.live_iff p).2 (Activation.mem_scopes.2 (hlow.imp_right fun ⟨b, hb, he, _⟩ => ⟨b, hb, he⟩))

/-- A walk from a live scope does not come to one that is not live. -/
theorem walk_live (h : c.Nested) {name : String} {e : WalkEnd Value} (hl : c.machine.scopes.isLive id = true)
    (hw : c.machine.scopes.Walk name id e) (other : ScopeId) : e ≠ .released other := by
  induction hw with
  | released hn =>
    rw [ScopeStore.isLive, hn] at hl
    cases hl
  | found | outside =>
    intro he
    cases he
  | @outward id parent s e hs hn hp _ ih =>
    have hparent : c.machine.scopes.parent? id = some (some parent) := by
      rw [ScopeStore.parent?, hs, Option.map_some, hp]
    exact ih (h.parent_live hparent)

/-- The number of a block or call, by its scope. The global scope comes before all. -/
def age (as : List Activation) (id : ScopeId) : Nat := ((as.find? (·.scope = id)).map (·.number + 1)).getD 0

theorem age_scope (h : c.Nested) {a : Activation} (ha : a ∈ c.activations) :
    age c.activations a.scope = a.number + 1 := by
  have hnodup : (c.activations.map Activation.scope).Nodup := (List.nodup_append.1 h.stack.nodup).1
  obtain ⟨b, hb⟩ := Option.isSome_iff_exists.1
    (List.find?_isSome.2 ⟨a, ha, decide_eq_true rfl⟩ : (c.activations.find? (·.scope = a.scope)).isSome)
  have he : b = a := List.inj_on_of_nodup_map hnodup (List.mem_of_find?_eq_some hb) ha
    (of_decide_eq_true (List.find?_some hb :))
  rw [age, hb, he]
  rfl

theorem age_global (h : c.Nested) : age c.activations ScopeStore.global = 0 := by
  have hnot : ∀ a ∈ c.activations, a.scope ≠ ScopeStore.global := fun a ha he =>
    (List.nodup_append.1 h.stack.nodup).2.2 _ (List.mem_map.2 ⟨a, ha, rfl⟩) _ List.mem_cons_self he
  have hnone : c.activations.find? (·.scope = ScopeStore.global) = none :=
    List.find?_eq_none.2 fun a ha => by simpa using hnot a ha
  rw [age, hnone]
  rfl

/-- Every live scope is inside an older one. -/
theorem aged (h : c.Nested) : c.machine.scopes.Aged (age c.activations) := by
  intro id s parent hs hp _
  have hparent : c.machine.scopes.parent? id = some (some parent) := by
    rw [ScopeStore.parent?, hs, Option.map_some, hp]
  have hlive : c.machine.scopes.isLive id = true := ScopeStore.isLive_iff.2 ⟨s, hs⟩
  rcases Activation.mem_scopes.1 ((h.stack.live_iff id).1 hlive) with rfl | ⟨a, ha, rfl⟩
  · rw [h.outermost] at hparent
    cases hparent
  · rw [h.age_scope ha]
    obtain ⟨q, hq, hlow⟩ := h.parent a ha
    rw [hq] at hparent
    cases hparent
    rcases hlow with rfl | ⟨b, hb, rfl, hlt⟩
    · rw [h.age_global]
      exact Nat.succ_pos _
    · rw [h.age_scope hb]
      exact Nat.succ_lt_succ hlt

/-- Looking for a name from a live scope ends where the walk outward does, and not at a scope that is not live. -/
theorem walk (h : c.Nested) (hl : c.machine.scopes.isLive id = true) (name : String) :
    ∃ e, c.machine.scopes.Walk name id e ∧ c.machine.scopes.binder? id name = e.binder? ∧
      ∀ other, e ≠ .released other := by
  obtain ⟨e, hw, he⟩ := h.aged.exists_walk id name
  exact ⟨e, hw, he, h.walk_live hl hw⟩

end Nested

end Process

end QueryTemplate
