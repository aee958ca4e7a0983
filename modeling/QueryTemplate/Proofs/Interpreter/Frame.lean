import QueryTemplate.Interpreter.Basic
import QueryTemplate.Proofs.Scope.Stack

/-!
# What evaluation leaves as it was

However an evaluation ends, the current scope and the depth of calls are those from before, the same scopes are live
inside the same parents, and no live scope has lost or gained a name, but for those that a statement declares in the
current scope (`Frame`). A block or call opens a scope, which only the handle of that scope reaches, and releases
whatever is current at its end: that is the scope which it opened, since the body has kept it current (`Keeps.within`).
-/

namespace QueryTemplate

/-- Whether a live scope binds a name itself. -/
def ScopeStore.Binds {α : Type} (st : ScopeStore α) (id : ScopeId) (name : String) : Prop :=
  ∃ s, st.scope? id = some s ∧ s.bindings.contains name = true

/-- The parent of a live scope. -/
def ScopeStore.parent? {α : Type} (st : ScopeStore α) (id : ScopeId) : Option (Option ScopeId) :=
  (st.scope? id).map Scope.parent

/-- What is the same in two states, where names may have been declared in the current scope. -/
structure Machine.Frame (names : List String) (m m' : Machine) : Prop where
  current : m'.current = m.current
  callDepth : m'.callDepth = m.callDepth
  /-- The live scopes are the same, and so are their parents. -/
  parent? : ∀ id, m'.scopes.parent? id = m.scopes.parent? id
  kept : ∀ id name, m.scopes.Binds id name → m'.scopes.Binds id name
  gained : ∀ id name, m'.scopes.Binds id name → m.scopes.Binds id name ∨ id = m.current ∧ name ∈ names

/-- The state in which a computation ends. -/
def EvalM.after {α : Type} (x : EvalM α) (m : Machine) : Machine :=
  match x m with
  | .ok _ m' | .error _ m' => m'

/-- Whether a computation keeps the frame, but for names that it may declare. -/
structure EvalM.Keeps {α : Type} (names : List String) (x : EvalM α) : Prop where
  spec : ∀ m, m.scopes.Consistent → (x.after m).scopes.Consistent ∧ m.Frame names (x.after m)
  grows : ∀ m, m.scopes.opened ≤ (x.after m).scopes.opened

/-! ## Frames -/

namespace Machine.Frame

variable {names names' : List String} {m m₁ m₂ : Machine}

theorem refl (m : Machine) : m.Frame names m :=
  ⟨rfl, rfl, fun _ => rfl, fun _ _ h => h, fun _ _ h => .inl h⟩

theorem trans (h₁ : m.Frame names m₁) (h₂ : m₁.Frame names m₂) : m.Frame names m₂ where
  current := h₂.current.trans h₁.current
  callDepth := h₂.callDepth.trans h₁.callDepth
  parent? id := (h₂.parent? id).trans (h₁.parent? id)
  kept id name h := h₂.kept id name (h₁.kept id name h)
  gained id name h := by
    rcases h₂.gained id name h with h | ⟨hid, hn⟩
    · exact h₁.gained id name h
    · exact .inr ⟨hid.trans h₁.current, hn⟩

theorem mono (h : m.Frame names m₁) (hn : ∀ n ∈ names, n ∈ names') : m.Frame names' m₁ :=
  { h with gained := fun id name hb => (h.gained id name hb).imp_right fun ⟨hid, hm⟩ => ⟨hid, hn name hm⟩ }

theorem isLive (h : m.Frame names m₁) (id : ScopeId) : m₁.scopes.isLive id = m.scopes.isLive id := by
  have := congrArg Option.isSome (h.parent? id)
  simpa [ScopeStore.parent?, ScopeStore.isLive] using this

end Machine.Frame

/-! ## Computations that keep the frame -/

namespace EvalM

variable {α β : Type} {names : List String} {x : EvalM α}

theorem after_ok {m m' : Machine} {a : α} (h : x m = .ok a m') : x.after m = m' := by
  unfold after
  rw [h]

theorem after_error {m m' : Machine} {e : EvalError} (h : x m = .error e m') : x.after m = m' := by
  unfold after
  rw [h]

/-- A computation that changes neither the scopes, nor which of them is current, nor the depth of calls. -/
theorem Keeps.of_same (h : ∀ m, (x.after m).scopes = m.scopes ∧ (x.after m).current = m.current ∧
    (x.after m).callDepth = m.callDepth) : Keeps names x := by
  refine ⟨fun m hm => ?_, fun m => Nat.le_of_eq (by rw [(h m).1])⟩
  obtain ⟨hs, hc, hd⟩ := h m
  refine ⟨by rw [hs]; exact hm, hc, hd, ?_, ?_, ?_⟩
  · intro id
    rw [hs]
  · intro id name
    rw [hs]
    exact fun h => h
  · intro id name h
    rw [hs] at h
    exact .inl h

/-- A computation that goes on in one way or another, as the state is. -/
theorem Keeps.of_branches (h : ∀ m, ∃ y : EvalM α, Keeps names y ∧ x m = y m) : Keeps names x := by
  have hafter : ∀ {y : EvalM α} {m : Machine}, x m = y m → x.after m = y.after m := fun he => by
    unfold after
    rw [he]
  refine ⟨fun m hm => ?_, fun m => ?_⟩
  · obtain ⟨y, hy, he⟩ := h m
    rw [hafter he]
    exact hy.spec m hm
  · obtain ⟨y, hy, he⟩ := h m
    rw [hafter he]
    exact hy.grows m

theorem Keeps.mono {names' : List String} (h : Keeps names x) (hn : ∀ n ∈ names, n ∈ names') : Keeps names' x :=
  ⟨fun m hm => ⟨(h.spec m hm).1, (h.spec m hm).2.mono hn⟩, h.grows⟩

theorem keeps_pure (a : α) : Keeps names (pure a : EvalM α) := .of_same fun _ => ⟨rfl, rfl, rfl⟩

theorem keeps_fail (fault : EvalFault) : Keeps names (fail fault : EvalM α) := .of_same fun _ => ⟨rfl, rfl, rfl⟩

theorem keeps_throw (e : EvalError) : Keeps names (throw e : EvalM α) := .of_same fun _ => ⟨rfl, rfl, rfl⟩

theorem keeps_ofExcept (r : Except EvalFault α) : Keeps names (ofExcept r) := by
  cases r with
  | ok a => exact keeps_pure a
  | error fault => exact keeps_fail fault

theorem after_bind_ok {f : α → EvalM β} {m m' : Machine} {a : α} (h : x m = .ok a m') :
    (x >>= f).after m = (f a).after m' := by
  simp only [after, show (x >>= f) m = f a m' by simp [Bind.bind, EStateM.bind, h]]

theorem after_bind_error {f : α → EvalM β} {m m' : Machine} {e : EvalError} (h : x m = .error e m') :
    (x >>= f).after m = m' :=
  after_error (show (x >>= f) m = .error e m' by simp [Bind.bind, EStateM.bind, h])

theorem Keeps.bind {f : α → EvalM β} (hx : Keeps names x) (hf : ∀ a, Keeps names (f a)) : Keeps names (x >>= f) := by
  refine ⟨fun m hm => ?_, fun m => ?_⟩
  · obtain ⟨hc, hfr⟩ := hx.spec m hm
    cases h : x m with
    | ok a m' =>
      rw [after_ok h] at hc hfr
      rw [after_bind_ok h]
      obtain ⟨hc', hfr'⟩ := (hf a).spec m' hc
      exact ⟨hc', hfr.trans hfr'⟩
    | error e m' =>
      rw [after_error h] at hc hfr
      rw [after_bind_error h]
      exact ⟨hc, hfr⟩
  · have hle := hx.grows m
    cases h : x m with
    | ok a m' =>
      rw [after_ok h] at hle
      rw [after_bind_ok h]
      exact Nat.le_trans hle ((hf a).grows m')
    | error e m' =>
      rw [after_error h] at hle
      rw [after_bind_error h]
      exact hle

theorem seqRight_eq_bind (x : EvalM α) (y : EvalM β) : (x *> y) = x >>= fun _ => y := by
  funext m
  show EStateM.seqRight x (fun _ => y) m = EStateM.bind x (fun _ => y) m
  unfold EStateM.seqRight EStateM.bind
  cases x m <;> rfl

theorem after_placed (p : Position) (m : Machine) : (EvalM.placed p x).after m = x.after m := by
  simp only [after, EvalM.placed]
  cases x m <;> rfl

theorem Keeps.placed (h : Keeps names x) (p : Position) : Keeps names (placed p x) :=
  ⟨fun m hm => by rw [after_placed]; exact h.spec m hm, fun m => by rw [after_placed]; exact h.grows m⟩

theorem keeps_lookup (name : String) : Keeps names (lookup name) :=
  .of_same fun m => by
    simp only [after, lookup]
    cases m.scopes.lookup m.current name <;> exact ⟨rfl, rfl, rfl⟩

theorem keeps_print (v : Value) : Keeps names (print v) := .of_same fun _ => ⟨rfl, rfl, rfl⟩

theorem keeps_isLive (id : ScopeId) : Keeps names (isLive id) := .of_same fun _ => ⟨rfl, rfl, rfl⟩

theorem keeps_callDepth : Keeps names callDepth := .of_same fun _ => ⟨rfl, rfl, rfl⟩

theorem keeps_close (declaration : FunctionDecl) : Keeps names (close declaration) :=
  .of_same fun _ => ⟨rfl, rfl, rfl⟩

/-- A binding declares its name. -/
theorem keeps_define {name : String} (hn : name ∈ names) (v : Value) : Keeps names (define name v) := by
  refine ⟨fun m hm => ?_, fun m => Nat.le_of_eq (ScopeStore.define_opened ..).symm⟩
  refine ⟨ScopeStore.define_consistent hm .., rfl, rfl, fun id => ?_, fun id other => ?_, fun id other => ?_⟩
  · show Option.map _ ((m.scopes.define m.current name v).scope? id) = _
    rw [ScopeStore.scope?_define, ScopeStore.parent?]
    split
    next he =>
      rw [he]
      cases m.scopes.scope? m.current <;> rfl
    next => rfl
  · rintro ⟨s, hs, hb⟩
    show ∃ s', (m.scopes.define m.current name v).scope? id = some s' ∧ _
    rw [ScopeStore.scope?_define]
    split
    next he =>
      subst he
      exact ⟨_, by rw [hs]; rfl, (s.bindings.contains_insert ..).2 (.inr hb)⟩
    next => exact ⟨s, hs, hb⟩
  · rintro ⟨s', hs', hb⟩
    replace hs' : (m.scopes.define m.current name v).scope? id = some s' := hs'
    rw [ScopeStore.scope?_define] at hs'
    split at hs'
    next he =>
      obtain ⟨s, hs, rfl⟩ := Option.map_eq_some_iff.1 hs'
      rcases (s.bindings.contains_insert ..).1 hb with rfl | hb
      · exact .inr ⟨he, hn⟩
      · exact .inl ⟨s, by rw [he]; exact hs, hb⟩
    next => exact .inl ⟨s', hs', hb⟩

/-- An assignment changes the value of a name where it is bound. -/
theorem after_assign (name : String) (v : Value) (m : Machine) : (assign name v).after m = m ∨
    ∃ owner s, m.scopes.scope? owner = some s ∧ s.bindings.contains name = true ∧ (assign name v).after m =
      { m with scopes := m.scopes.store owner { s with bindings := s.bindings.insert name v } } := by
  cases h : m.scopes.assign? m.current name v with
  | none => exact .inl (after_error (by unfold assign; rw [h]))
  | some st =>
    obtain ⟨owner, s, -, hs, hn, rfl⟩ := ScopeStore.assign?_eq_some h
    exact .inr ⟨owner, s, hs, hn, after_ok (by unfold assign; rw [h])⟩

theorem keeps_assign (name : String) (v : Value) : Keeps names (assign name v) := by
  refine ⟨fun m hm => ?_, fun m => ?_⟩
  · rcases after_assign name v m with he | ⟨owner, s, hs, hn, he⟩
    · rw [he]
      exact ⟨hm, .refl m⟩
    rw [he]
    have hl : m.scopes.isLive owner = true := ScopeStore.isLive_iff.2 ⟨s, hs⟩
    refine ⟨ScopeStore.store_consistent hm hl, rfl, rfl, fun id => ?_, fun id other => ?_, fun id other => ?_⟩
    · show Option.map _ ((m.scopes.store owner _).scope? id) = _
      rw [ScopeStore.scope?_store hl, ScopeStore.parent?]
      split
      next he => rw [he, hs]; rfl
      next => rfl
    · rintro ⟨t, ht, hb⟩
      show ∃ s', (m.scopes.store owner _).scope? id = some s' ∧ _
      rw [ScopeStore.scope?_store hl]
      split
      next he =>
        rw [he, hs] at ht
        cases ht
        exact ⟨_, rfl, (Bindings.contains_insert_of_contains hn _).2 hb⟩
      next => exact ⟨t, ht, hb⟩
    · rintro ⟨t, ht, hb⟩
      replace ht : (m.scopes.store owner _).scope? id = some t := ht
      rw [ScopeStore.scope?_store hl] at ht
      split at ht
      next he =>
        cases ht
        exact .inl ⟨s, by rw [he]; exact hs, (Bindings.contains_insert_of_contains hn _).1 hb⟩
      next => exact .inl ⟨t, ht, hb⟩
  · rcases after_assign name v m with he | ⟨owner, s, -, -, he⟩
    · exact Nat.le_of_eq (by rw [he])
    · rw [he]
      exact Nat.le_refl _

/-! ## Scopes and calls -/

/-- A new scope is not reached by any handle that was live, and all other handles reach what they did. -/
theorem enter_spec {m : Machine} (hm : m.scopes.Consistent) (parent : ScopeId) (bindings : List (String × Value)) :
    (m.enter parent bindings).scopes.Consistent ∧ m.scopes.scope? (m.enter parent bindings).current = none ∧
      (m.enter parent bindings).current ≠ ScopeStore.global ∧
      (m.enter parent bindings).scopes.scope? (m.enter parent bindings).current
        = some ⟨some parent, Bindings.empty.insertAll bindings⟩ ∧
      (∀ id, id ≠ (m.enter parent bindings).current →
        (m.enter parent bindings).scopes.scope? id = m.scopes.scope? id) := by
  obtain ⟨hfresh, hslot, hpush⟩ := ScopeStore.scope?_push hm parent
  refine ⟨ScopeStore.defineAll_consistent (ScopeStore.push_consistent hm parent) .., hfresh,
    fun he => hslot (congrArg ScopeId.slot he), ?_, fun id hne => ?_⟩
  · show ((m.scopes.push parent).2.defineAll (m.scopes.push parent).1 bindings).scope? (m.scopes.push parent).1 = _
    rw [ScopeStore.scope?_defineAll, if_pos rfl, hpush, if_pos rfl]
    rfl
  · show ((m.scopes.push parent).2.defineAll (m.scopes.push parent).1 bindings).scope? id = _
    have hne : id ≠ (m.scopes.push parent).1 := hne
    rw [ScopeStore.scope?_defineAll, if_neg hne, hpush, if_neg hne]

theorem leave_spec {m : Machine} (hm : m.scopes.Consistent) (previous : ScopeId)
    (hl : m.scopes.isLive m.current = true) (hg : m.current ≠ ScopeStore.global) :
    (m.leave previous).scopes.Consistent ∧
      (∀ id, (m.leave previous).scopes.scope? id = if id = m.current then none else m.scopes.scope? id) :=
  ⟨ScopeStore.release_consistent hm _, ScopeStore.scope?_release hl hg⟩

/-- Leaving the scope that was entered brings back the frame, if the frame was kept in it. -/
theorem frame_leave {m m' : Machine} (hm : m.scopes.Consistent) (parent : ScopeId) (bindings : List (String × Value))
    {inner : List String} (hc : m'.scopes.Consistent) (hf : (m.enter parent bindings).Frame inner m') :
    (m'.leave m.current).scopes.Consistent ∧ m.Frame names (m'.leave m.current) := by
  obtain ⟨-, hfresh, hglobal, hnew, hother⟩ := enter_spec hm parent bindings
  have hcur : m'.current = (m.enter parent bindings).current := hf.current
  have hlive : m'.scopes.isLive m'.current = true := by
    rw [hcur, hf.isLive, ScopeStore.isLive, hnew]
    rfl
  obtain ⟨hcl, hscope⟩ := leave_spec hc m.current hlive (hcur ▸ hglobal)
  refine ⟨hcl, rfl, hf.callDepth, fun id => ?_, fun id name => ?_, fun id name => ?_⟩
  · rw [ScopeStore.parent?, hscope]
    split
    next he => rw [he, hcur, ScopeStore.parent?, hfresh]
    next hne =>
      have := hf.parent? id
      rw [ScopeStore.parent?, ScopeStore.parent?, hother id (hcur ▸ hne)] at this
      exact this
  · rintro ⟨s, hs, hb⟩
    have hne : id ≠ m'.current := fun he => by
      rw [he, hcur, hfresh] at hs
      cases hs
    obtain ⟨s', hs', hb'⟩ := hf.kept id name ⟨s, (hother id (hcur ▸ hne)).trans hs, hb⟩
    exact ⟨s', by rw [hscope, if_neg hne, hs'], hb'⟩
  · rintro ⟨s', hs', hb⟩
    rw [hscope] at hs'
    split at hs'
    next => cases hs'
    next hne =>
      rcases hf.gained id name ⟨s', hs', hb⟩ with ⟨s, hs, hb'⟩ | ⟨he, -⟩
      · exact .inl ⟨s, by rw [← hother id (hcur ▸ hne), hs], hb'⟩
      · exact absurd (he.trans hcur.symm) hne

theorem after_within (parent : ScopeId) (bindings : List (String × Value)) (m : Machine) :
    (within parent bindings x).after m = (x.after (m.enter parent bindings)).leave m.current := by
  simp only [after, within]
  cases x (m.enter parent bindings) <;> rfl

theorem enter_opened (m : Machine) (parent : ScopeId) (bindings : List (String × Value)) :
    (m.enter parent bindings).scopes.opened = m.scopes.opened + 1 :=
  (ScopeStore.defineAll_opened bindings).trans (ScopeStore.push_opened parent)

theorem leave_opened (m : Machine) (previous : ScopeId) : (m.leave previous).scopes.opened = m.scopes.opened :=
  ScopeStore.release_opened _

/-- Work in a scope of its own declares nothing outside it. -/
theorem Keeps.within {inner : List String} (hx : Keeps inner x) (parent : ScopeId)
    (bindings : List (String × Value)) : Keeps names (within parent bindings x) := by
  refine ⟨fun m hm => ?_, fun m => ?_⟩
  · obtain ⟨hc, hf⟩ := hx.spec _ (enter_spec hm parent bindings).1
    rw [after_within]
    exact frame_leave hm parent bindings hc hf
  · have hle := hx.grows (m.enter parent bindings)
    rw [enter_opened] at hle
    rw [after_within, leave_opened]
    omega

theorem after_called (m : Machine) : (called x).after m =
    { x.after { m with callDepth := m.callDepth + 1 } with
      callDepth := (x.after { m with callDepth := m.callDepth + 1 }).callDepth - 1 } := by
  simp only [after, called]
  cases x { m with callDepth := m.callDepth + 1 } <;> rfl

theorem Keeps.called (hx : Keeps names x) : Keeps names (called x) := by
  refine ⟨fun m hm => ?_, fun m => ?_⟩
  · obtain ⟨hc, hf⟩ := hx.spec { m with callDepth := m.callDepth + 1 } hm
    rw [after_called]
    refine ⟨hc, hf.current, ?_, hf.parent?, hf.kept, hf.gained⟩
    show (x.after _).callDepth - 1 = m.callDepth
    rw [hf.callDepth]
    rfl
  · rw [after_called]
    exact hx.grows { m with callDepth := m.callDepth + 1 }

end EvalM

/-! ## Entering a scope -/

namespace Machine

variable {m : Machine} {ids : List ScopeId}

theorem enter_stack (h : m.scopes.Stack ids) (parent : ScopeId) (bindings : List (String × Value)) :
    (m.enter parent bindings).scopes.Stack ((m.enter parent bindings).current :: ids) :=
  (h.push parent).of_live (EvalM.enter_spec h.consistent parent bindings).1 ScopeStore.isLive_defineAll

theorem enter_counted (hc : m.scopes.Consistent) (h : m.scopes.Counted) (parent : ScopeId)
    (bindings : List (String × Value)) : (m.enter parent bindings).scopes.Counted :=
  (h.push hc parent).of_live (ScopeStore.generation_defineAll bindings) ScopeStore.isLive_defineAll
    (ScopeStore.defineAll_opened bindings)

theorem enter_past {id : ScopeId} (h : m.scopes.Past id) (parent : ScopeId) (bindings : List (String × Value)) :
    (m.enter parent bindings).scopes.Past id :=
  h.of_generation fun slot => (ScopeStore.generation_defineAll bindings slot).trans
    (ScopeStore.generation_push parent slot).1

/-- The new scope is inside the given one, and all others are where they were. -/
theorem parent?_enter (hc : m.scopes.Consistent) (parent : ScopeId) (bindings : List (String × Value)) (id : ScopeId) :
    (m.enter parent bindings).scopes.parent? id =
      if id = (m.enter parent bindings).current then some (some parent) else m.scopes.parent? id := by
  obtain ⟨-, -, -, hnew, hother⟩ := EvalM.enter_spec hc parent bindings
  rw [ScopeStore.parent?, ScopeStore.parent?]
  split
  next he =>
    rw [he, hnew]
    rfl
  next hne => rw [hother id hne]

end Machine

end QueryTemplate
