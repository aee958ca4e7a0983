import QueryTemplate.Proofs.Interpreter.Twin

/-!
# Computations that agree

Two computations simulate each other if from twin states they come to twin states, with related values or with the same
fault (`EvalM.Simulates`). Scopes that are opened on the way make the pairing larger. There is one lemma for each way of
putting computations together (`EvalM.Simulates.bind`, `EvalM.Simulates.within`), and one for each of the parts.
-/

namespace QueryTemplate

open Level

namespace EvalM

variable {α β α' β' : Type}

/-- Results of two runs: related values or the same fault, and twin states. -/
inductive Agree (ρ : Pairing) (levels : List Level) (P : Pairing → α → β → Prop) :
    EStateM.Result EvalError Machine α → EStateM.Result EvalError Machine β → Prop
  | ok {a : α} {b : β} {m m' : Machine} (value : P ρ a b) (states : m.Twin ρ levels m') :
    Agree ρ levels P (.ok a m) (.ok b m')
  | error {e e' : EvalError} {m m' : Machine} (fault : e.fault = e'.fault) (states : m.Twin ρ levels m') :
    Agree ρ levels P (.error e m) (.error e' m')

/-- From twin states two computations come to results that agree, unless the first one opens too many scopes. -/
def Simulates (ρ : Pairing) (levels : List Level) (P : Pairing → α → β → Prop) (x : EvalM α) (y : EvalM β) : Prop :=
  ∀ m m', m.Twin ρ levels m' → (x.after m).scopes.opened < 2 ^ 32 →
    ∃ ρ' : Pairing, (∀ a b, ρ a b → ρ' a b) ∧ Agree ρ' levels P (x m) (y m')

/-- What is the same in both runs. -/
def Same (_ : Pairing) (a b : α) : Prop := a = b

theorem bind_ok {x : EvalM α} {f : α → EvalM β} {m m' : Machine} {a : α} (h : x m = .ok a m') :
    (x >>= f) m = f a m' := by
  simp [Bind.bind, EStateM.bind, h]

theorem bind_error {x : EvalM α} {f : α → EvalM β} {m m' : Machine} {e : EvalError} (h : x m = .error e m') :
    (x >>= f) m = .error e m' := by
  simp [Bind.bind, EStateM.bind, h]

namespace Simulates

variable {ρ : Pairing} {levels : List Level} {P : Pairing → α → β → Prop} {Q : Pairing → α' → β' → Prop}
  {x x₁ : EvalM α} {y y₁ : EvalM β}

/-- Two computations that do not change the states. -/
theorem of_result (h : ∀ m m', m.Twin ρ levels m' → Agree ρ levels P (x m) (y m')) : Simulates ρ levels P x y :=
  fun m m' hm _ => ⟨ρ, fun _ _ hp => hp, h m m' hm⟩

/-- Two computations that go on in one way or another, as the states are. -/
theorem of_branches (h : ∀ m m', m.Twin ρ levels m' → ∃ x₁ y₁, Simulates ρ levels P x₁ y₁ ∧ x m = x₁ m ∧ y m' = y₁ m') :
    Simulates ρ levels P x y := by
  intro m m' hm ho
  obtain ⟨x₁, y₁, h₁, hx, hy⟩ := h m m' hm
  have hafter : x.after m = x₁.after m := by
    unfold after
    rw [hx]
  rw [hafter] at ho
  rw [hx, hy]
  exact h₁ m m' hm ho

theorem pure {a : α} {b : β} (h : P ρ a b) : Simulates ρ levels P (pure a) (pure b) :=
  .of_result fun _ _ hm => .ok h hm

theorem fail (fault : EvalFault) : Simulates ρ levels P (fail fault : EvalM α) (EvalM.fail fault : EvalM β) :=
  .of_result fun _ _ hm => .error rfl hm

theorem ofExcept {P : Pairing → α → α → Prop} {r : Except EvalFault α} (h : ∀ a, r = .ok a → P ρ a a) :
    Simulates ρ levels P (ofExcept r) (EvalM.ofExcept r) := by
  cases r with
  | ok a => exact .pure (h a rfl)
  | error fault => exact .fail fault

/-- One computation after another. That the second one of the first run does not lower the number of opened scopes makes
sure that there were not too many in between. -/
theorem bind {f : α → EvalM α'} {g : β → EvalM β'} (hx : Simulates ρ levels P x y) (names : List String)
    (hf : ∀ a, Keeps names (f a))
    (h : ∀ ρ' : Pairing, (∀ a b, ρ a b → ρ' a b) → ∀ a b, P ρ' a b → Simulates ρ' levels Q (f a) (g b)) :
    Simulates ρ levels Q (x >>= f) (y >>= g) := by
  intro m m' hm ho
  cases hxm : x m with
  | ok a m₁ =>
    rw [after_bind_ok hxm] at ho
    obtain ⟨ρ₁, hρ₁, hagree⟩ := hx m m' hm (by rw [after_ok hxm]; exact Nat.lt_of_le_of_lt ((hf a).grows m₁) ho)
    rw [hxm] at hagree
    rw [bind_ok hxm]
    generalize hym : y m' = r at hagree
    cases hagree with
    | ok value states =>
      rw [bind_ok hym]
      obtain ⟨ρ₂, hρ₂, hagree⟩ := h ρ₁ hρ₁ _ _ value _ _ states ho
      exact ⟨ρ₂, fun _ _ hp => hρ₂ _ _ (hρ₁ _ _ hp), hagree⟩
  | error e m₁ =>
    rw [after_bind_error hxm] at ho
    obtain ⟨ρ₁, hρ₁, hagree⟩ := hx m m' hm (by rwa [after_error hxm])
    rw [hxm] at hagree
    rw [bind_error hxm]
    generalize hym : y m' = r at hagree
    cases hagree with
    | error fault states =>
      rw [bind_error hym]
      exact ⟨ρ₁, hρ₁, .error fault states⟩

/-- A place in the first run only, as of a group. -/
theorem placedLeft (h : Simulates ρ levels P x y) (p : Position) : Simulates ρ levels P (placed p x) y := by
  intro m m' hm ho
  rw [after_placed] at ho
  obtain ⟨ρ', hρ', hagree⟩ := h m m' hm ho
  refine ⟨ρ', hρ', ?_⟩
  unfold EvalM.placed
  generalize x m = r at hagree ⊢
  generalize y m' = r' at hagree ⊢
  cases hagree with
  | ok value states => exact .ok value states
  | error fault states => exact .error ((EvalError.fault_placed ..).trans fault) states

theorem placed (h : Simulates ρ levels P x y) (p q : Position) : Simulates ρ levels P (placed p x) (placed q y) := by
  intro m m' hm ho
  obtain ⟨ρ', hρ', hagree⟩ := h.placedLeft p m m' hm ho
  refine ⟨ρ', hρ', ?_⟩
  generalize EvalM.placed p x m = r at hagree ⊢
  unfold EvalM.placed
  generalize y m' = r' at hagree ⊢
  cases hagree with
  | ok value states => exact .ok value states
  | error fault states => exact .error (fault.trans (EvalError.fault_placed ..).symm) states

/-! ### Names -/

theorem lookup (name : String) : Simulates ρ levels Value.Twin (lookup name) (EvalM.lookup name) := by
  refine .of_result fun m m' hm => ?_
  have hl := hm.lookup name
  unfold EvalM.lookup
  generalize m.scopes.lookup m.current name = r at hl ⊢
  generalize m'.scopes.lookup m'.current name = r' at hl ⊢
  cases hl with
  | none => exact .error rfl hm
  | some hv => exact .ok hv hm

/-- A binding in scopes that stand for each other. -/
theorem define {id id' : ScopeId} {v w : Value} (hv : v.Twin ρ w) (name : String) :
    Simulates ρ ((id, some id') :: levels) Same (define name v) (EvalM.define name w) :=
  .of_result fun _ _ hm => .ok rfl (hm.define hv name)

theorem assign {v w : Value} (hv : v.Twin ρ w) (name : String) :
    Simulates ρ levels Same (assign name v) (EvalM.assign name w) := by
  refine .of_result fun m m' hm => ?_
  have hb := hm.binder? name
  unfold EvalM.assign ScopeStore.assign?
  cases hx : m.scopes.binder? m.current name with
  | none =>
    rw [hx] at hb
    generalize m'.scopes.binder? m'.current name = r at hb ⊢
    cases hb
    exact .error rfl hm
  | some found =>
    rw [hx] at hb
    cases hy : m'.scopes.binder? m'.current name with
    | none =>
      rw [hy] at hb
      cases hb
    | some found' =>
      rw [hy] at hb
      obtain ⟨hmem, -⟩ : _ ∧ _ := by
        cases hb with
        | some h => exact h
      have hs := (ScopeStore.binderWithin_eq_some hx).1
      have hs' := (ScopeStore.binderWithin_eq_some hy).1
      refine .ok rfl ⟨?_, hm.current, hm.current', hm.callDepth, hm.heap, hm.output, hm.declarations⟩
      exact hm.scopes.insert hmem hs hs' name hv

/-! ### Scopes and calls -/

/-- Of scopes that stand for each other both are live or none is. -/
theorem isLive {id id' : ScopeId} (hp : ρ id id') :
    Simulates ρ levels (fun _ a b => a = b ∧ (a = true → (id, some id') ∈ levels)) (isLive id) (EvalM.isLive id') :=
  .of_result fun _ _ hm => .ok ⟨hm.scopes.isLive hp, hm.scopes.mem_of_isLive hp⟩ hm

theorem callDepth : Simulates ρ levels Same callDepth EvalM.callDepth := .of_result fun _ _ hm => .ok hm.callDepth hm

theorem print {v w : Value} (hv : v.Twin ρ w) : Simulates ρ levels Same (print v) (EvalM.print w) := by
  refine .of_result fun m m' hm => .ok rfl ?_
  refine ⟨hm.scopes, hm.current, hm.current', hm.callDepth, hm.heap, ?_, hm.declarations⟩
  rw [hm.output, hv.twin_alike.display]

theorem close {id id' : ScopeId} (d : FunctionDecl) :
    Simulates ρ ((id, some id') :: levels) Closure.Twin (close d) (EvalM.close d.bare) := by
  refine .of_result fun m m' hm => .ok ⟨hm.declarations, rfl, ?_⟩ ?_
  · have hid : id = m.current := Option.some.inj hm.current
    have hid' : id' = m'.current := Option.some.inj hm.current'
    obtain ⟨-, -, -, -, -, hp⟩ := hm.scopes.linked.scopes List.mem_cons_self
    exact hid ▸ hid' ▸ hp
  · exact ⟨hm.scopes, hm.current, hm.current', hm.callDepth, hm.heap, hm.output, congrArg (· + 1) hm.declarations⟩

theorem host {body body' : HostM Value} (member : String)
    (h : ∀ k k' : Heap, k.Related (Closure.Twin ρ) k' → HostM.Agree (Closure.Twin ρ) (body k) (body' k')) :
    Simulates ρ levels Value.Twin (host member body) (EvalM.host member body') := by
  refine .of_result fun m m' hm => ?_
  have hagree := h m.heap m'.heap hm.heap
  unfold EvalM.host
  generalize body m.heap = r at hagree ⊢
  generalize body' m'.heap = r' at hagree ⊢
  cases hagree with
  | ok hv hk =>
    exact .ok hv ⟨hm.scopes, hm.current, hm.current', hm.callDepth, hk, hm.output, hm.declarations⟩
  | error hk =>
    exact .error rfl ⟨hm.scopes, hm.current, hm.current', hm.callDepth, hk, hm.output, hm.declarations⟩

/-- Work in scopes that stand for each other, each with the same names bound to related values. -/
theorem within {p p' : ScopeId} {xs ys : List (String × Value)} (hp : (p, some p') ∈ levels)
    (hb : List.Forall₂ (Value.RelatedEntry (Closure.Twin ρ)) xs ys)
    (h : ∀ ρ' : Pairing, (∀ a b, ρ a b → ρ' a b) → ∀ id id', Simulates ρ' ((id, some id') :: levels) P x y) :
    Simulates ρ levels P (within p xs x) (EvalM.within p' ys y) := by
  intro m m' hm ho
  rw [after_within, leave_opened] at ho
  obtain ⟨ρ₁, hρ₁, hagree⟩ := h _ (fun _ _ => .inl) _ _ _ _ (hm.enter hp hb) ho
  refine ⟨ρ₁, fun _ _ hab => hρ₁ _ _ (.inl hab), ?_⟩
  unfold EvalM.within
  unfold after at ho
  generalize x (m.enter p xs) = r at hagree ho ⊢
  generalize y (m'.enter p' ys) = r' at hagree ⊢
  cases hagree with
  | ok value states => exact .ok value (states.leave hm.current hm.current' ho)
  | error fault states => exact .error fault (states.leave hm.current hm.current' ho)

/-- Work in a scope between braces that the second run does not have. -/
theorem withinExtra {id id' : ScopeId} (h : ∀ i, Simulates ρ ((i, none) :: (id, some id') :: levels) P x y) :
    Simulates ρ ((id, some id') :: levels) P (EvalM.within id [] x) y := by
  intro m m' hm ho
  rw [after_within, leave_opened] at ho
  obtain ⟨ρ₁, hρ₁, hagree⟩ := h _ _ _ hm.enterExtra ho
  refine ⟨ρ₁, hρ₁, ?_⟩
  unfold EvalM.within
  unfold after at ho
  generalize x (m.enter id []) = r at hagree ho ⊢
  generalize y m' = r' at hagree ⊢
  cases hagree with
  | ok value states => exact .ok value (states.leaveExtra hm.current ho)
  | error fault states => exact .error fault (states.leaveExtra hm.current ho)

theorem called (h : Simulates ρ levels P x y) : Simulates ρ levels P (called x) (EvalM.called y) := by
  intro m m' hm ho
  rw [after_called] at ho
  obtain ⟨ρ₁, hρ₁, hagree⟩ := h { m with callDepth := m.callDepth + 1 } { m' with callDepth := m'.callDepth + 1 }
    ⟨hm.scopes, hm.current, hm.current', congrArg (· + 1) hm.callDepth, hm.heap, hm.output, hm.declarations⟩ ho
  refine ⟨ρ₁, hρ₁, ?_⟩
  unfold EvalM.called
  generalize x { m with callDepth := m.callDepth + 1 } = r at hagree ⊢
  generalize y { m' with callDepth := m'.callDepth + 1 } = r' at hagree ⊢
  cases hagree with
  | ok value states =>
    exact .ok value ⟨states.scopes, states.current, states.current', congrArg (· - 1) states.callDepth, states.heap,
      states.output, states.declarations⟩
  | error fault states =>
    exact .error fault ⟨states.scopes, states.current, states.current', congrArg (· - 1) states.callDepth, states.heap,
      states.output, states.declarations⟩

end Simulates

end EvalM

end QueryTemplate
