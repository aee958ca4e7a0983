import QueryTemplate.Proofs.Interpreter.Process
import QueryTemplate.Proofs.Scope.Matched
import QueryTemplate.Proofs.Value.Linked

/-!
# Processes side by side

Two processes are linked if they are about to do the same with linked values, in states with the same scopes. Plans of
trees are linked to themselves (`exprPlan_linked`, `stmtPlan_linked`): a template says what to do with values, but not
with the places of objects. Linked processes take steps of the same kind to linked processes (`Process.Linked.step`).
-/

namespace QueryTemplate

variable {ρ : Link} {types : Registry} {limit : Nat}

/-! ## States -/

/-- The same printed text, after what had been printed before. -/
inductive Output.Linked (before : String) : Output → Output → Prop
  | silent (h : before = "") : Linked before .silent .silent
  | buffer (text : String) : Linked before (.buffer text) (.buffer (before ++ text))

theorem Output.Linked.line {before : String} {o o' : Output} (h : o.Linked before o') (s : String) :
    (o.line s).Linked before (o'.line s) := by
  cases h with
  | silent h => exact .silent h
  | buffer text =>
    have hline : Output.line (.buffer (before ++ text)) s = .buffer (before ++ (text ++ s ++ "\n")) := by
      simp only [Output.line, String.append_assoc]
    rw [hline]
    exact .buffer _

theorem Output.Linked.text {before : String} {o o' : Output} (h : o.Linked before o') : o'.text = before ++ o.text := by
  cases h with
  | silent h => rw [h]; rfl
  | buffer text => rfl

theorem Output.linked_clear (o : Output) : o.clear.Linked o.text o := by
  cases o with
  | silent => exact .silent rfl
  | buffer text =>
    have h : Output.Linked text (.buffer "") (.buffer (text ++ "")) := .buffer ""
    rwa [String.append_empty] at h

theorem Output.linked_self (o : Output) : o.Linked "" o := by
  cases o with
  | silent => exact .silent rfl
  | buffer text =>
    have h : Output.Linked "" (.buffer text) (.buffer ("" ++ text)) := .buffer text
    rwa [String.empty_append] at h

/-- States with the same scopes, linked values and linked heaps. -/
structure Machine.Linked (ρ : Link) (m m' : Machine) : Prop where
  scopes : m.scopes.Matched (Value.Linked ρ) m'.scopes
  current : m.current = m'.current
  callDepth : m.callDepth = m'.callDepth
  heap : m.heap.Linked ρ m'.heap
  output : m.output.Linked ρ.before m'.output
  declarations : m'.declarations = m.declarations + ρ.later

namespace Machine.Linked

variable {m m' : Machine}

theorem enter (h : m.Linked ρ m') (parent : ScopeId) {bindings bindings' : List (String × Value)}
    (hb : List.Forall₂ (Value.LinkedEntry ρ) bindings bindings') :
    (m.enter parent bindings).Linked ρ (m'.enter parent bindings') := by
  obtain ⟨hid, hpush⟩ := h.scopes.push parent
  refine ⟨?_, hid, h.callDepth, h.heap, h.output, h.declarations⟩
  show ((m.scopes.push parent).2.defineAll (m.scopes.push parent).1 bindings).Matched _
    ((m'.scopes.push parent).2.defineAll (m'.scopes.push parent).1 bindings')
  rw [← hid]
  exact hpush.defineAll _ hb

theorem leave (h : m.Linked ρ m') (previous : ScopeId) : (m.leave previous).Linked ρ (m'.leave previous) := by
  refine ⟨?_, rfl, h.callDepth, h.heap, h.output, h.declarations⟩
  show (m.scopes.release m.current).Matched _ (m'.scopes.release m'.current)
  rw [← h.current]
  exact h.scopes.release _

theorem begin (h : m.Linked ρ m') : m.begin.Linked ρ m'.begin :=
  { h with callDepth := congrArg (· + 1) h.callDepth }

theorem finish (h : m.Linked ρ m') : m.finish.Linked ρ m'.finish :=
  { h with callDepth := congrArg (· - 1) h.callDepth }

theorem define (h : m.Linked ρ m') (name : String) {v w : Value} (hv : v.Linked ρ w) :
    Machine.Linked ρ { m with scopes := m.scopes.define m.current name v }
      { m' with scopes := m'.scopes.define m'.current name w } := by
  have hs := h.scopes.define m.current name hv
  exact { h with scopes := h.current ▸ hs }

theorem succ_declarations (h : m.Linked ρ m') : m'.declarations + 1 = m.declarations + 1 + ρ.later := by
  rw [h.declarations, Nat.add_right_comm]

theorem activation (h : m.Linked ρ m') (parent : ScopeId) (bindings bindings' : List (String × Value)) :
    m.activation parent bindings = m'.activation parent bindings' := by
  have hid : (m.enter parent bindings).current = (m'.enter parent bindings').current := (h.scopes.push parent).1
  rw [Machine.activation, Machine.activation, h.scopes.opened, hid, h.current]

end Machine.Linked

/-! ## Actions -/

/-- The same action on linked values. -/
inductive Action.Linked (ρ : Link) : Action → Action → Prop
  | yield {r : Except EvalFault Value} (h : ∀ v, r = .ok v → v.isPlain = true) : Linked ρ (.yield r) (.yield r)
  | lookup (name : String) : Linked ρ (.lookup name) (.lookup name)
  | assign (name : String) {v w : Value} (h : v.Linked ρ w) : Linked ρ (.assign name v) (.assign name w)
  | define (name : String) {v w : Value} (h : v.Linked ρ w) : Linked ρ (.define name v) (.define name w)
  | print {v w : Value} (h : v.Linked ρ w) : Linked ρ (.print v) (.print w)
  | function (d : FunctionDecl) : Linked ρ (.function d) (.function d)
  | mapper (d : FunctionDecl) : Linked ρ (.mapper d) (.mapper d)
  | importType (path localName : String) : Linked ρ (.importType path localName) (.importType path localName)
  | construct (t : HostType) {vs ws : List Value} (hs : List.Forall₂ (Value.Linked ρ) vs ws) :
    Linked ρ (.construct t vs) (.construct t ws)
  | callMember {r s : Value} (h : r.Linked ρ s) (name : String) {vs ws : List Value}
    (hs : List.Forall₂ (Value.Linked ρ) vs ws) : Linked ρ (.callMember r name vs) (.callMember s name ws)
  | getMember {r s : Value} (h : r.Linked ρ s) (field : String) : Linked ρ (.getMember r field) (.getMember s field)
  | setMember {r s : Value} (h : r.Linked ρ s) (field : String) {v w : Value} (hv : v.Linked ρ w) :
    Linked ρ (.setMember r field v) (.setMember s field w)

/-- The closures that the action makes in a state may occur. -/
def Link.Admits (ρ : Link) (m : Machine) : Action → Prop
  | .function d => ρ.function ⟨m.declarations, d, m.current⟩
  | .mapper d => ρ.mapper ⟨m.declarations, d, m.current⟩
  | _ => True

namespace EvalM

/-- Results with linked values and states, or the same error and linked states. -/
inductive Linked (ρ : Link) : EStateM.Result EvalError Machine Value → EStateM.Result EvalError Machine Value → Prop
  | ok {v w : Value} {m m' : Machine} (hv : v.Linked ρ w) (hm : m.Linked ρ m') : Linked ρ (.ok v m) (.ok w m')
  | error {e : EvalError} {m m' : Machine} (hm : m.Linked ρ m') : Linked ρ (.error e m) (.error e m')

variable {m m' : Machine} {vs ws : List Value} {v w : Value}

theorem linked_host (member : String) {x y : List Value → HostM Value} (hxy : HostM.Links ρ x y)
    (hs : List.Forall₂ (Value.Linked ρ) vs ws) (hm : m.Linked ρ m') :
    Linked ρ (host member (x vs) m) (host member (y ws) m') := by
  have h := hxy vs ws _ _ hs hm.heap
  unfold host
  generalize x vs m.heap = r at h
  generalize y ws m'.heap = r' at h
  cases h with
  | ok hv hk => exact .ok hv { hm with heap := hk }
  | error hk => exact .error { hm with heap := hk }

theorem Linked.bind {x y : EvalM Value} {f g : Value → EvalM Value} (h : Linked ρ (x m) (y m'))
    (hfg : ∀ v w m m', Value.Linked ρ v w → m.Linked ρ m' → Linked ρ (f v m) (g w m')) :
    Linked ρ ((x >>= f) m) ((y >>= g) m') := by
  simp only [Bind.bind, EStateM.bind]
  generalize x m = r at h
  generalize y m' = r' at h
  cases h with
  | ok hv hm => exact hfg _ _ _ _ hv hm
  | error hm => exact .error hm

end EvalM

open EvalM

namespace Member

variable {m m' : Machine} {vs ws : List Value} {v w : Value} (htypes : types.Links ρ)

include htypes

theorem construct_linked (t : HostType) (hs : List.Forall₂ (Value.Linked ρ) vs ws) (hm : m.Linked ρ m') :
    EvalM.Linked ρ (construct types t vs m) (construct types t ws m') := by
  unfold construct
  rw [← HostType.constructor?_linked _ hs, ← hs.length_eq]
  cases t.constructor? vs with
  | some c => exact linked_host _ (htypes.constructors c.body t) hs hm
  | none => exact .error hm

theorem invoke_static_linked (t : HostType) (name : String) (hs : List.Forall₂ (Value.Linked ρ) vs ws)
    (hm : m.Linked ρ m') : EvalM.Linked ρ (invoke types t none name vs m) (invoke types t none name ws m') := by
  unfold invoke
  rw [← HostType.method?_linked _ _ _ hs]
  cases t.method? name vs (Option.isNone (none : Option ObjectRef)) with
  | some c => exact linked_host _ (htypes.statics c.body) hs hm
  | none => exact .error hm

theorem invoke_linked {t : HostType} {i j : Nat} (hij : ρ.place i j) (name : String)
    (hs : List.Forall₂ (Value.Linked ρ) vs ws) (hm : m.Linked ρ m') :
    EvalM.Linked ρ (invoke types t (some ⟨t, i⟩) name vs m) (invoke types t (some ⟨t, j⟩) name ws m') := by
  unfold invoke
  rw [← HostType.method?_linked _ _ _ hs]
  simp only [Option.isNone_some]
  cases t.method? name vs false with
  | some c => exact linked_host _ (htypes.methods c.body t hij) hs hm
  | none => exact .error hm

theorem call_linked (h : v.Linked ρ w) (name : String) (hs : List.Forall₂ (Value.Linked ρ) vs ws)
    (hm : m.Linked ρ m') : EvalM.Linked ρ (call types v name vs m) (call types w name ws m') := by
  cases h with
  | object hij => exact invoke_linked htypes hij name hs hm
  | function | mapper => exact .error hm
  | plain h =>
    cases v with
    | type t => exact invoke_static_linked htypes t name hs hm
    | object => cases h
    | _ => exact .error hm

theorem get_linked (h : v.Linked ρ w) (field : String) (hm : m.Linked ρ m') :
    EvalM.Linked ρ (get types v field m) (get types w field m') := by
  cases h with
  | @object t i j hij =>
    have hf : Option.Rel (Value.Linked ρ) (m.heap.get? ⟨t, i⟩ field) (m'.heap.get? ⟨t, j⟩ field) :=
      hm.heap.get? hij field
    rw [get_object, get_object]
    generalize m.heap.get? ⟨t, i⟩ field = x at hf
    generalize m'.heap.get? ⟨t, j⟩ field = y at hf
    cases hf with
    | some hv => exact .ok hv hm
    | none => exact invoke_linked htypes hij _ .nil hm
  | function | mapper => exact .error hm
  | plain h =>
    cases v with
    | type t => exact invoke_static_linked htypes t _ .nil hm
    | object => cases h
    | _ => exact .error hm

theorem set_linked (h : v.Linked ρ w) (field : String) {u u' : Value} (hu : u.Linked ρ u') (hm : m.Linked ρ m') :
    EvalM.Linked ρ (set types v field u m) (set types w field u' m') := by
  cases h with
  | @object t i j hij =>
    have hf : Option.Rel (Heap.Linked ρ) (m.heap.set? ⟨t, i⟩ field u) (m'.heap.set? ⟨t, j⟩ field u') :=
      hm.heap.set? hij field hu
    rw [set_object, set_object]
    generalize m.heap.set? ⟨t, i⟩ field u = x at hf
    generalize m'.heap.set? ⟨t, j⟩ field u' = y at hf
    cases hf with
    | some hk => exact .ok hu { hm with heap := hk }
    | none =>
      exact (invoke_linked htypes hij _ (.cons hu .nil) hm).bind fun _ _ _ _ _ hm => .ok hu hm
  | function | mapper => exact .error hm
  | plain h =>
    cases v with
    | object => cases h
    | _ => exact .error hm

end Member

theorem Action.Linked.run {a b : Action} {m m' : Machine} (h : a.Linked ρ b) (htypes : types.Links ρ)
    (hm : m.Linked ρ m') (hadmits : ρ.Admits m a) : EvalM.Linked ρ (a.run types m) (b.run types m') := by
  cases h with
  | @yield r h =>
    cases r with
    | ok v => exact .ok (.plain (h v rfl)) hm
    | error fault => exact .error hm
  | lookup name =>
    have hl := hm.scopes.lookup m.current name
    simp only [Action.run, EvalM.lookup]
    generalize m.scopes.lookup m.current name = x at hl
    rw [hm.current] at hl
    generalize m'.scopes.lookup m'.current name = y at hl
    cases hl with
    | none => exact .error hm
    | some hv => exact .ok hv hm
  | @assign name v w hv =>
    have ha := hm.scopes.assign? m.current name hv
    simp only [Action.run, bind, EStateM.bind, EvalM.assign]
    generalize m.scopes.assign? m.current name v = x at ha
    rw [hm.current] at ha
    generalize m'.scopes.assign? m'.current name w = y at ha
    cases ha with
    | none => exact .error hm
    | some hs => exact .ok hv { hm with scopes := hs }
  | define name hv => exact .ok (.plain rfl) (hm.define name hv)
  | print hv =>
    refine .ok (.plain rfl) { hm with output := ?_ }
    rw [← hv.similar.display]
    exact hm.output.line _
  | function d =>
    have hf : Value.Linked ρ (.function ⟨m.declarations, d, m.current⟩)
        (.function ⟨m'.declarations, d, m'.current⟩) := by
      rw [← hm.current, hm.declarations]
      exact .function hadmits rfl
    exact .ok (.plain rfl) { hm.define d.name.name hf with declarations := hm.succ_declarations }
  | mapper d =>
    have hf : Value.Linked ρ (.mapper ⟨m.declarations, d, m.current⟩) (.mapper ⟨m'.declarations, d, m'.current⟩) := by
      rw [← hm.current, hm.declarations]
      exact .mapper hadmits rfl
    exact .ok (.plain rfl) { hm.define d.name.name hf with declarations := hm.succ_declarations }
  | importType path localName =>
    simp only [Action.run]
    cases types.find? path with
    | some t => exact .ok (.plain rfl) (hm.define localName (.plain rfl))
    | none => exact .error hm
  | construct t hs => exact Member.construct_linked htypes t hs hm
  | callMember h name hs => exact Member.call_linked htypes h name hs hm
  | getMember h field => exact Member.get_linked htypes h field hm
  | setMember h field hv => exact Member.set_linked htypes h field hv hm

/-! ## Plans -/

/-- The same outcome with linked values. -/
inductive Outcome.Linked (ρ : Link) : Outcome → Outcome → Prop
  | done {v w : Value} (h : v.Linked ρ w) : Linked ρ (.done v) (.done w)
  | returned {v w : Value} (h : v.Linked ρ w) : Linked ρ (.returned v) (.returned w)

theorem Outcome.Linked.value {o o' : Outcome} (h : o.Linked ρ o') : o.value.Linked ρ o'.value := by
  cases h with
  | done h | returned h => exact h

/-- Plans to do the same with linked values. -/
inductive Plan.Linked (ρ : Link) : Plan → Plan → Prop
  | done {o o' : Outcome} (h : o.Linked ρ o') : Linked ρ (.done o) (.done o')
  | act {a b : Action} (h : a.Linked ρ b) : Linked ρ (.act a) (.act b)
  | call {f g : Closure} {bindings bindings' : List (String × Value)} (hf : ρ.function f ∨ ρ.mapper f)
    (hg : g = f.later ρ.later) (hb : List.Forall₂ (Value.LinkedEntry ρ) bindings bindings') :
    Linked ρ (.call f bindings) (.call g bindings')
  | placed (p : Position) {x y : Plan} (h : Linked ρ x y) : Linked ρ (.placed p x) (.placed p y)
  | block {x y : Plan} (h : Linked ρ x y) : Linked ρ (.block x) (.block y)
  | seq {x y : Plan} {next next' : Outcome → Plan} (h : Linked ρ x y)
    (hnext : ∀ o o', Outcome.Linked ρ o o' → Linked ρ (next o) (next' o')) : Linked ρ (.seq x next) (.seq y next')

namespace Plan.Linked

theorem value {v w : Value} (h : v.Linked ρ w) : Plan.Linked ρ (.value v) (.value w) := .done (.done h)

theorem fail (fault : EvalFault) : Plan.Linked ρ (.fail fault) (.fail fault) := .act (.yield nofun)

theorem andThen {x y : Plan} {next next' : Value → Plan} (h : Plan.Linked ρ x y)
    (hnext : ∀ v w, v.Linked ρ w → Plan.Linked ρ (next v) (next' w)) :
    Plan.Linked ρ (x.andThen next) (y.andThen next') :=
  .seq h fun _ _ ho => hnext _ _ ho.value

end Plan.Linked

/-- Names bound to linked values in order. -/
theorem linked_zip (names : List String) {vs ws : List Value} (hs : List.Forall₂ (Value.Linked ρ) vs ws) :
    List.Forall₂ (Value.LinkedEntry ρ) (names.zip vs) (names.zip ws) := by
  induction hs generalizing names with
  | nil => simp
  | cons hv _ ih =>
    cases names with
    | nil => exact .nil
    | cons n names => exact .cons ⟨rfl, hv⟩ (ih names)

theorem callPlan_linked {v w : Value} (h : v.Linked ρ w) {vs ws : List Value}
    (hs : List.Forall₂ (Value.Linked ρ) vs ws) : (callPlan v vs).Linked ρ (callPlan w ws) := by
  cases h with
  | @function f _ h hg =>
    subst hg
    have harity : (f.later ρ.later).arity = f.arity := rfl
    simp only [callPlan, ← hs.length_eq, harity]
    split
    · exact .call (.inl h) rfl (linked_zip _ hs)
    · exact .fail _
  | mapper _ hg =>
    subst hg
    exact .fail _
  | object => exact .fail _
  | plain h =>
    cases v with
    | type t => exact .act (.construct t hs)
    | function | mapper | object => cases h
    | _ => exact .fail _

theorem truthPlan_linked {v w : Value} (h : v.Linked ρ w) (op : LogicalOp) (p : Position) {next next' : Bool → Plan}
    (hnext : ∀ b, (next b).Linked ρ (next' b)) : (truthPlan op p v next).Linked ρ (truthPlan op p w next') := by
  cases h with
  | plain h =>
    cases v with
    | bool b => exact hnext b
    | function | mapper | object => cases h
    | _ => exact .placed p (.fail _)
  | _ => exact .placed p (.fail _)

theorem conditionPlan_linked {v w : Value} (h : v.Linked ρ w) (p : Position) {x x' y y' : Plan}
    (hx : x.Linked ρ x') (hy : y.Linked ρ y') : (conditionPlan p v x y).Linked ρ (conditionPlan p w x' y') := by
  cases h with
  | plain h =>
    cases v with
    | bool b =>
      cases b with
      | true => exact hx
      | false => exact hy
    | function | mapper | object => cases h
    | _ => exact .placed p (.fail _)
  | _ => exact .placed p (.fail _)

theorem literal_isPlain {l : Literal} {v : Value} (h : l.value = .ok v) : v.isPlain = true := by
  cases l with
  | int n =>
    simp only [Literal.value] at h
    split at h <;> cases h <;> rfl
  | bigInt digits =>
    simp only [Literal.value] at h
    split at h <;> cases h
    rfl
  | _ =>
    cases h
    rfl

mutual

theorem exprPlan_linked (e : Expr) : e.plan.Linked ρ e.plan := by
  cases e with
  | literal l p =>
    rw [Expr.plan]
    exact .placed p (.act (.yield fun v => literal_isPlain))
  | binary op left right p =>
    rw [Expr.plan]
    refine .placed p ((exprPlan_linked left).andThen fun l l' hl => (exprPlan_linked right).andThen fun r r' hr => ?_)
    rw [BinaryOp.apply_linked hl hr]
    exact .act (.yield fun v => BinaryOp.apply_isPlain)
  | logical op left right p =>
    rw [Expr.plan]
    refine .placed p ((exprPlan_linked left).andThen fun l l' hl => truthPlan_linked hl op _ fun b => ?_)
    split
    · exact .value (.plain rfl)
    · exact (exprPlan_linked right).andThen fun r r' hr => truthPlan_linked hr op _ fun c => .value (.plain rfl)
  | unary op operand p =>
    rw [Expr.plan]
    refine .placed p ((exprPlan_linked operand).andThen fun v v' hv => ?_)
    rw [UnaryOp.apply_linked hv]
    exact .act (.yield fun v => UnaryOp.apply_isPlain)
  | grouping inner p =>
    rw [Expr.plan]
    exact .placed p (exprPlan_linked inner)
  | name i =>
    rw [Expr.plan]
    exact .placed _ (.act (.lookup i.name))
  | assign target value =>
    rw [Expr.plan]
    exact .placed _ ((exprPlan_linked value).andThen fun v w h => .act (.assign target.name h))
  | call callee arguments p =>
    rw [Expr.plan]
    exact .placed p ((exprPlan_linked callee).andThen fun f g hf =>
      exprPlans_linked arguments fun vs ws hs => callPlan_linked hf hs)
  | callMethod receiver method arguments =>
    rw [Expr.plan]
    exact .placed _ ((exprPlan_linked receiver).andThen fun r s hr =>
      exprPlans_linked arguments fun vs ws hs => .act (.callMember hr method.name hs))
  | getField receiver field =>
    rw [Expr.plan]
    exact .placed _ ((exprPlan_linked receiver).andThen fun r s hr => .act (.getMember hr field.name))
  | setField receiver field value =>
    rw [Expr.plan]
    exact .placed _ ((exprPlan_linked receiver).andThen fun r s hr =>
      (exprPlan_linked value).andThen fun v w hv => .act (.setMember hr field.name hv))

theorem exprPlans_linked (es : List Expr) {next next' : List Value → Plan}
    (hnext : ∀ vs ws, List.Forall₂ (Value.Linked ρ) vs ws → (next vs).Linked ρ (next' ws)) :
    (Expr.plans es next).Linked ρ (Expr.plans es next') := by
  cases es with
  | nil =>
    rw [Expr.plans, Expr.plans]
    exact hnext [] [] .nil
  | cons e es =>
    rw [Expr.plans, Expr.plans]
    exact (exprPlan_linked e).andThen fun v w hv => exprPlans_linked es fun vs ws hs => hnext _ _ (.cons hv hs)

end

mutual

/-- A statement does the same with linked values. -/
theorem stmtPlan_linked (s : Stmt) : s.plan.Linked ρ s.plan := by
  cases s with
  | expr e =>
    rw [Stmt.plan]
    exact exprPlan_linked e
  | define name value =>
    rw [Stmt.plan]
    exact (exprPlan_linked value).andThen fun v w h => .act (.define name.name h)
  | print e =>
    rw [Stmt.plan]
    exact (exprPlan_linked e).andThen fun v w h => .act (.print h)
  | ifThen condition thenBranch =>
    rw [Stmt.plan]
    exact (exprPlan_linked condition).andThen fun v w h =>
      conditionPlan_linked h _ (stmtPlan_linked thenBranch) (.value (.plain rfl))
  | ifElse condition thenBranch elseBranch =>
    rw [Stmt.plan]
    exact (exprPlan_linked condition).andThen fun v w h =>
      conditionPlan_linked h _ (stmtPlan_linked thenBranch) (stmtPlan_linked elseBranch)
  | block body =>
    rw [Stmt.plan]
    exact .block (stmtPlans_linked (.plain rfl) body)
  | function name parameters body =>
    rw [Stmt.plan]
    exact .act (.function _)
  | mapper name parameters body =>
    rw [Stmt.plan]
    exact .act (.mapper _)
  | ret value p =>
    cases value with
    | none =>
      rw [Stmt.plan]
      exact .done (.returned (.plain rfl))
    | some value =>
      rw [Stmt.plan]
      exact (exprPlan_linked value).andThen fun v w h => .done (.returned h)
  | importType path localName =>
    rw [Stmt.plan]
    exact .placed _ (.act (.importType path localName.name))

theorem stmtPlans_linked {last last' : Value} (h : last.Linked ρ last') (ss : List Stmt) :
    (Stmt.plans last ss).Linked ρ (Stmt.plans last' ss) := by
  cases ss with
  | nil =>
    rw [Stmt.plans, Stmt.plans]
    exact .value h
  | cons s ss =>
    rw [Stmt.plans, Stmt.plans]
    refine .seq (stmtPlan_linked s) fun o o' ho => ?_
    cases ho with
    | done hv => exact stmtPlans_linked hv ss
    | returned hv => exact .done (.returned hv)

end

/-! ## Requests -/

/-- The cells of a row are read as plain values. -/
theorem Column.value_isPlain (c : Column) : c.value.isPlain = true := by
  have hmap : ∀ {α : Type} (x : Option α) (f : α → Value), (∀ a, (f a).isPlain = true) →
      ((x.map f).getD .null).isPlain = true := by
    intro α x f hf
    cases x with
    | none => rfl
    | some a => exact hf a
  unfold Column.value Column.read?
  cases c.type <;> first | exact hmap _ _ fun _ => rfl | rfl

theorem Interpreter.keyBindings_isPlain {row : Row} {parameters : List Ident} {keys : List (String × Value)}
    (h : keyBindings row parameters = .ok keys) : ∀ x ∈ keys, x.2.isPlain = true := by
  induction parameters generalizing keys with
  | nil =>
    cases h
    exact List.forall_mem_nil _
  | cons p ps ih =>
    rw [keyBindings] at h
    split at h
    next c _ =>
      cases hk : keyBindings row ps with
      | error e =>
        rw [hk] at h
        cases h
      | ok rest =>
        rw [hk] at h
        cases h
        exact List.forall_mem_cons.2 ⟨c.value_isPlain, ih hk⟩
    · cases h

/-- The same request with linked values. Rows hold no objects and no closures, as they are read. -/
inductive Request.Linked (ρ : Link) : Request → Request → Prop
  | execute (program : Program) : Linked ρ (.execute program) (.execute program)
  | evaluate (e : Expr) : Linked ρ (.evaluate e) (.evaluate e)
  | call {v w : Value} (h : v.Linked ρ w) {vs ws : List Value} (hs : List.Forall₂ (Value.Linked ρ) vs ws) :
    Linked ρ (.call v vs) (.call w ws)
  | mapRow {v w : Value} (h : v.Linked ρ w) (row : Row) : Linked ρ (.mapRow v row) (.mapRow w row)

theorem Request.Linked.plan {q q' : Request} (h : q.Linked ρ q') : q.plan.Linked ρ q'.plan := by
  cases h with
  | execute program => exact stmtPlans_linked (.plain rfl) program
  | evaluate e => exact exprPlan_linked e
  | call h hs => exact callPlan_linked h hs
  | mapRow h row =>
    cases h with
    | function _ hg =>
      subst hg
      exact .fail _
    | object => exact .fail _
    | plain h =>
      rename_i v
      cases v with
      | function | mapper | object => cases h
      | _ => exact .fail _
    | @mapper f _ hf hg =>
      subst hg
      have hparameters : (f.later ρ.later).declaration = f.declaration := rfl
      simp only [Request.plan, hparameters]
      cases hk : Interpreter.keyBindings row f.declaration.parameters with
      | error e => exact .placed _ (.fail _)
      | ok keys =>
        refine .call (.inr hf) rfl (List.forall₂_same.2 fun x hx => ⟨rfl, .plain ?_⟩)
        rcases List.mem_append.1 hx with hx | hx
        · obtain ⟨c, -, rfl⟩ := List.mem_map.1 hx
          exact c.value_isPlain
        · exact Interpreter.keyBindings_isPlain hk x hx

/-! ## Processes -/

/-- To go on in the same way with linked values. -/
inductive Frame.Linked (ρ : Link) : Frame → Frame → Prop
  | next {next next' : Outcome → Plan} (h : ∀ o o', Outcome.Linked ρ o o' → (next o).Linked ρ (next' o')) :
    Linked ρ (.next next) (.next next')
  | placed (p : Position) : Linked ρ (.placed p) (.placed p)
  | block (a : Activation) : Linked ρ (.block a) (.block a)
  | call (a : Activation) : Linked ρ (.call a) (.call a)

inductive Focus.Linked (ρ : Link) : Focus → Focus → Prop
  | doing {x y : Plan} (h : x.Linked ρ y) : Linked ρ (.doing x) (.doing y)
  | ok {o o' : Outcome} (h : o.Linked ρ o') : Linked ρ (.ended (.ok o)) (.ended (.ok o'))
  | error (e : EvalError) : Linked ρ (.ended (.error e)) (.ended (.error e))

/-- Processes that do the same in linked states. -/
structure Process.Linked (ρ : Link) (c d : Process) : Prop where
  focus : c.focus.Linked ρ d.focus
  frames : List.Forall₂ (Frame.Linked ρ) c.frames d.frames
  machine : c.machine.Linked ρ d.machine

/-- The closures that the next step makes may occur. -/
def Process.Admitted (ρ : Link) (c : Process) : Prop := ∀ a, c.focus = .doing (.act a) → ρ.Admits c.machine a

namespace Process.Linked

open Process

theorem of_result {fs fs' : List Frame} {x y : EvalM Value} {m m' : Machine}
    (hfs : List.Forall₂ (Frame.Linked ρ) fs fs')
    (h : EvalM.Linked ρ (x m) (y m')) : (ofResult fs (x.outcome m)).Linked ρ (ofResult fs' (y.outcome m')) := by
  simp only [outcome, bind, EStateM.bind]
  generalize x m = r at h
  generalize y m' = r' at h
  cases h with
  | ok hv hm => exact ⟨.ok (.done hv), hfs, hm⟩
  | error hm => exact ⟨.error _, hfs, hm⟩

/-- Linked processes take the same steps. -/
theorem step {c c' d : Process} (h : c.Linked ρ c') (htypes : types.Links ρ) (hadmitted : c.Admitted ρ)
    (hs : Step types limit c d) : ∃ d', Step types limit c' d' ∧ d.Linked ρ d' := by
  obtain ⟨focus', fs', m'⟩ := c'
  obtain ⟨hfocus, hfs, hm⟩ := h
  cases hs with
  | done =>
    cases hfocus with
    | doing h =>
      cases h with
      | done ho => exact ⟨_, .done, .ok ho, hfs, hm⟩
  | act =>
    cases hfocus with
    | doing h =>
      cases h with
      | act ha => exact ⟨_, .act, of_result hfs (ha.run htypes hm (hadmitted _ rfl))⟩
  | seq =>
    cases hfocus with
    | doing h =>
      cases h with
      | seq hx hnext => exact ⟨_, .seq, .doing hx, .cons (.next hnext) hfs, hm⟩
  | placed =>
    cases hfocus with
    | doing h =>
      cases h with
      | placed p hx => exact ⟨_, .placed, .doing hx, .cons (.placed _) hfs, hm⟩
  | block =>
    cases hfocus with
    | doing h =>
      cases h with
      | block hx =>
        refine ⟨_, .block, .doing hx, .cons ?_ hfs, ?_⟩
        · rw [hm.activation _ [] [], hm.current]
          exact .block _
        · rw [← hm.current]
          exact hm.enter _ .nil
  | expired hl =>
    cases hfocus with
    | doing h =>
      cases h with
      | call hf hg hb =>
        subst hg
        exact ⟨_, .expired ((hm.scopes.isLive _).symm.trans hl), .error _, hfs, hm⟩
  | tooDeep hl hd =>
    cases hfocus with
    | doing h =>
      cases h with
      | call hf hg hb =>
        subst hg
        exact ⟨_, .tooDeep ((hm.scopes.isLive _).symm.trans hl) (hm.callDepth ▸ hd), .error _, hfs, hm⟩
  | call hl hd =>
    cases hfocus with
    | doing h =>
      cases h with
      | call hf hg hb =>
        subst hg
        refine ⟨_, .call ((hm.scopes.isLive _).symm.trans hl) (hm.callDepth ▸ hd),
          .doing (stmtPlans_linked (.plain rfl) _), .cons ?_ hfs, hm.begin.enter _ hb⟩
        rw [hm.begin.activation _ _ _]
        exact .call _
  | goOn =>
    cases hfocus with
    | ok ho =>
      cases hfs with
      | cons hf hfs =>
        cases hf with
        | next hnext => exact ⟨_, .goOn, .doing (hnext _ _ ho), hfs, hm⟩
  | giveUp =>
    cases hfocus with
    | error e =>
      cases hfs with
      | cons hf hfs =>
        cases hf with
        | next hnext => exact ⟨_, .giveUp, .error _, hfs, hm⟩
  | place =>
    cases hfs with
    | cons hf hfs =>
      cases hf with
      | placed p =>
        cases hfocus with
        | ok ho => exact ⟨_, .place, .ok ho, hfs, hm⟩
        | error e => exact ⟨_, .place, .error _, hfs, hm⟩
  | leaveBlock =>
    cases hfs with
    | cons hf hfs =>
      cases hf with
      | block a =>
        cases hfocus with
        | ok ho => exact ⟨_, .leaveBlock, .ok ho, hfs, hm.leave _⟩
        | error e => exact ⟨_, .leaveBlock, .error _, hfs, hm.leave _⟩
  | leaveCall =>
    cases hfs with
    | cons hf hfs =>
      cases hf with
      | call a =>
        cases hfocus with
        | ok ho => exact ⟨_, .leaveCall, .ok (.done ho.value), hfs, (hm.leave _).finish⟩
        | error e => exact ⟨_, .leaveCall, .error _, hfs, (hm.leave _).finish⟩

end Process.Linked

end QueryTemplate
