import QueryTemplate.Proofs.Interpreter.Process

/-!
# What all actions of a plan have in common

A property of actions that may depend on whether there is a block or call around holds everywhere in a plan if all
actions of the plan have it (`Plan.Everywhere`). Expressions come to few actions (`Action.OfExpr`), so it holds
everywhere in their plans if these have it (`exprPlan_everywhere`). Steps of a process keep to it, as long as it holds
everywhere in the bodies of the closures that are called (`Process.Everywhere.step`). No action gives an error a place,
and none panics but one that yields the panic (`Action.run_error`).
-/

namespace QueryTemplate

open EvalM

/-! ## Actions -/

section

variable {types : Registry} {m m' : Machine} {e : EvalError}

theorem EvalM.Worked.error {x : EvalM Value} (h : Worked m (x m)) (he : x m = .error e m') :
    ∃ fault, e = .ofFault fault ∧ fault.isPanic = false := by
  rw [he] at h
  cases h with
  | fault hfault => exact ⟨_, rfl, hfault⟩

/-- The error of an action has no place, and is no panic unless the action yields it. -/
theorem Action.run_error {a : Action} (h : a.run types m = .error e m') :
    ∃ fault, e = .ofFault fault ∧ (fault.isPanic = false ∨ a = .yield (.error fault)) := by
  have hworked : ∀ {x : EvalM Value}, EvalM.Worked m (x m) → x m = .error e m' →
      ∃ fault, e = .ofFault fault ∧ (fault.isPanic = false ∨ a = .yield (.error fault)) := by
    intro x hx he
    obtain ⟨fault, hfault, hp⟩ := hx.error he
    exact ⟨fault, hfault, .inl hp⟩
  cases a with
  | yield r =>
    cases r with
    | ok v => cases h
    | error fault =>
      cases h
      exact ⟨fault, rfl, .inr rfl⟩
  | lookup name =>
    simp only [run, EvalM.lookup] at h
    split at h <;> cases h
    exact ⟨_, rfl, .inl rfl⟩
  | assign name v =>
    simp only [run, bind, EStateM.bind, EvalM.assign] at h
    cases ha : m.scopes.assign? m.current name v with
    | some st =>
      rw [ha] at h
      cases h
    | none =>
      rw [ha] at h
      cases h
      exact ⟨_, rfl, .inl rfl⟩
  | importType path localName =>
    rw [run] at h
    cases hf : types.find? path with
    | some t =>
      rw [hf] at h
      cases h
    | none =>
      rw [hf] at h
      cases h
      exact ⟨_, rfl, .inl rfl⟩
  | define | print | function | mapper => cases h
  | construct t arguments => exact hworked (Member.construct_worked ..) h
  | callMember receiver name arguments => exact hworked (Member.call_worked ..) h
  | getMember receiver field => exact hworked (Member.get_worked ..) h
  | setMember receiver field v => exact hworked (Member.set_worked ..) h

end

/-! ## Plans -/

/-- The actions that expressions come to. -/
inductive Action.OfExpr : Action → Prop
  | literal (l : Literal) : OfExpr (.yield l.value)
  | unary (op : UnaryOp) (v : Value) : OfExpr (.yield (op.apply v))
  | binary (op : BinaryOp) (v w : Value) : OfExpr (.yield (op.apply v w))
  | fail {fault : EvalFault} (h : fault.isPanic = false) : OfExpr (.yield (.error fault))
  | lookup (name : String) : OfExpr (.lookup name)
  | assign (name : String) (v : Value) : OfExpr (.assign name v)
  | construct (t : HostType) (arguments : List Value) : OfExpr (.construct t arguments)
  | callMember (receiver : Value) (name : String) (arguments : List Value) :
    OfExpr (.callMember receiver name arguments)
  | getMember (receiver : Value) (field : String) : OfExpr (.getMember receiver field)
  | setMember (receiver : Value) (field : String) (v : Value) : OfExpr (.setMember receiver field v)

/-- Every action of the plan has the property, which depends on whether it stands inside a block or call. -/
inductive Plan.Everywhere (P : Bool → Action → Prop) : Bool → Plan → Prop
  | done {inside : Bool} {o : Outcome} : Everywhere P inside (.done o)
  | act {inside : Bool} {a : Action} (h : P inside a) : Everywhere P inside (.act a)
  | call {inside : Bool} {f : Closure} {bindings : List (String × Value)} : Everywhere P inside (.call f bindings)
  | placed {inside : Bool} {p : Position} {x : Plan} (h : Everywhere P inside x) : Everywhere P inside (.placed p x)
  | block {inside : Bool} {x : Plan} (h : Everywhere P true x) : Everywhere P inside (.block x)
  | seq {inside : Bool} {x : Plan} {next : Outcome → Plan} (h : Everywhere P inside x)
    (hnext : ∀ o, Everywhere P inside (next o)) : Everywhere P inside (.seq x next)

section

variable {P : Bool → Action → Prop} {inside : Bool}

namespace Plan.Everywhere

theorem andThen {x : Plan} {next : Value → Plan} (h : x.Everywhere P inside)
    (hnext : ∀ v, (next v).Everywhere P inside) : (x.andThen next).Everywhere P inside := .seq h fun o => hnext o.value

theorem conditionPlan {p : Position} {v : Value} {x y : Plan} (hP : ∀ a, a.OfExpr → P inside a)
    (hx : x.Everywhere P inside) (hy : y.Everywhere P inside) : (conditionPlan p v x y).Everywhere P inside := by
  cases v with
  | bool b =>
    cases b with
    | true => exact hx
    | false => exact hy
  | _ => exact .placed (.act (hP _ (.fail rfl)))

theorem truthPlan {op : LogicalOp} {p : Position} {v : Value} {next : Bool → Plan} (hP : ∀ a, a.OfExpr → P inside a)
    (hnext : ∀ b, (next b).Everywhere P inside) : (truthPlan op p v next).Everywhere P inside := by
  cases v with
  | bool b => exact hnext b
  | _ => exact .placed (.act (hP _ (.fail rfl)))

theorem callPlan (hP : ∀ a, a.OfExpr → P inside a) (callee : Value) (arguments : List Value) :
    (callPlan callee arguments).Everywhere P inside := by
  cases callee with
  | function f =>
    simp only [QueryTemplate.callPlan]
    split
    · exact .call
    · exact .act (hP _ (.fail rfl))
  | type t => exact .act (hP _ (.construct t arguments))
  | _ => exact .act (hP _ (.fail rfl))

end Plan.Everywhere

mutual

theorem exprPlan_everywhere (hP : ∀ a, a.OfExpr → P inside a) (e : Expr) : e.plan.Everywhere P inside := by
  cases e with
  | literal l p =>
    rw [Expr.plan]
    exact .placed (.act (hP _ (.literal l)))
  | binary op left right p =>
    rw [Expr.plan]
    exact .placed ((exprPlan_everywhere hP left).andThen fun l => (exprPlan_everywhere hP right).andThen fun r =>
      .act (hP _ (.binary op l r)))
  | logical op left right p =>
    rw [Expr.plan]
    refine .placed ((exprPlan_everywhere hP left).andThen fun _ => .truthPlan hP fun b => ?_)
    split
    · exact .done
    · exact (exprPlan_everywhere hP right).andThen fun _ => .truthPlan hP fun _ => .done
  | unary op operand p =>
    rw [Expr.plan]
    exact .placed ((exprPlan_everywhere hP operand).andThen fun v => .act (hP _ (.unary op v)))
  | grouping inner p =>
    rw [Expr.plan]
    exact .placed (exprPlan_everywhere hP inner)
  | name i =>
    rw [Expr.plan]
    exact .placed (.act (hP _ (.lookup i.name)))
  | assign target value =>
    rw [Expr.plan]
    exact .placed ((exprPlan_everywhere hP value).andThen fun v => .act (hP _ (.assign target.name v)))
  | call callee arguments p =>
    rw [Expr.plan]
    exact .placed ((exprPlan_everywhere hP callee).andThen fun _ => exprPlans_everywhere hP arguments fun _ =>
      .callPlan hP _ _)
  | callMethod receiver method arguments =>
    rw [Expr.plan]
    exact .placed ((exprPlan_everywhere hP receiver).andThen fun r => exprPlans_everywhere hP arguments fun vs =>
      .act (hP _ (.callMember r method.name vs)))
  | getField receiver field =>
    rw [Expr.plan]
    exact .placed ((exprPlan_everywhere hP receiver).andThen fun r => .act (hP _ (.getMember r field.name)))
  | setField receiver field value =>
    rw [Expr.plan]
    exact .placed ((exprPlan_everywhere hP receiver).andThen fun r => (exprPlan_everywhere hP value).andThen fun v =>
      .act (hP _ (.setMember r field.name v)))

theorem exprPlans_everywhere (hP : ∀ a, a.OfExpr → P inside a) (es : List Expr) {next : List Value → Plan}
    (hnext : ∀ vs, (next vs).Everywhere P inside) : (Expr.plans es next).Everywhere P inside := by
  cases es with
  | nil =>
    rw [Expr.plans]
    exact hnext []
  | cons e es =>
    rw [Expr.plans]
    exact (exprPlan_everywhere hP e).andThen fun _ => exprPlans_everywhere hP es fun _ => hnext _

end

end

/-! ## Processes -/

/-- Whether there is a block or call around. -/
def Frame.inside (fs : List Frame) : Bool := fs.any fun f => f.activation?.isSome

theorem activations_of_outside {fs : List Frame} (h : Frame.inside fs = false) :
    fs.filterMap Frame.activation? = [] := by
  rw [Frame.inside, List.any_eq_false] at h
  refine List.filterMap_eq_nil_iff.2 fun f hf => ?_
  simpa using h f hf

/-- The property holds everywhere in what is to be done afterwards. -/
def Frame.Everywhere (P : Bool → Action → Prop) : List Frame → Prop
  | [] => True
  | .next go :: fs => (∀ o, (go o).Everywhere P (inside fs)) ∧ Everywhere P fs
  | _ :: fs => Everywhere P fs

/-- The property holds everywhere in what is done and is to be done. -/
structure Process.Everywhere (P : Bool → Action → Prop) (c : Process) : Prop where
  focus : ∀ x, c.focus = .doing x → x.Everywhere P (Frame.inside c.frames)
  frames : Frame.Everywhere P c.frames

theorem Process.Everywhere.step {P : Bool → Action → Prop} {types : Registry} {limit : Nat} {c d : Process}
    (h : c.Everywhere P) (hcall : ∀ f bindings, c.focus = .doing (.call f bindings) → f.plan.Everywhere P true)
    (hs : Step types limit c d) : d.Everywhere P := by
  obtain ⟨hfocus, hframes⟩ := h
  cases hs with
  | @act a fs m =>
    simp only [outcome, bind, EStateM.bind]
    cases a.run types m <;> exact ⟨nofun, hframes⟩
  | seq =>
    cases hfocus _ rfl with
    | seq hx hnext => exact ⟨fun y hy => by cases hy; exact hx, hnext, hframes⟩
  | placed =>
    cases hfocus _ rfl with
    | placed hx => exact ⟨fun y hy => by cases hy; exact hx, hframes⟩
  | block =>
    cases hfocus _ rfl with
    | block hx => exact ⟨fun y hy => by cases hy; exact hx, hframes⟩
  | call => exact ⟨fun y hy => by cases hy; exact hcall _ _ rfl, hframes⟩
  | @goOn o => exact ⟨fun y hy => by cases hy; exact hframes.1 o, hframes.2⟩
  | giveUp => exact ⟨nofun, hframes.2⟩
  | _ => exact ⟨nofun, hframes⟩

end QueryTemplate
