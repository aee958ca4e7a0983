import QueryTemplate.Proofs.Interpreter.Discipline
import QueryTemplate.Proofs.Interpreter.Simulation

/-!
# Bare trees mean the same

An expression or statement and its bare tree, run from twin states, come to results that agree (`evalExpr_simulates`,
`execStmt_simulates`): by recursion on the tree with the calls as a parameter, and by induction on the room for calls
(`callWithin_simulates`). A branch between braces that the bare tree does not have opens a scope that stays empty
(`branch_simulates`).
-/

namespace QueryTemplate

open Level EvalM

/-- Outcomes of the same kind with related values. -/
inductive Outcome.Twin (ρ : Pairing) : Outcome → Outcome → Prop
  | done {v w : Value} (h : v.Twin ρ w) : Twin ρ (.done v) (.done w)
  | returned {v w : Value} (h : v.Twin ρ w) : Twin ρ (.returned v) (.returned w)

theorem Value.Related.null {ρ : Pairing} : Value.null.Twin ρ .null := .data nofun

/-- Related values in the same order. -/
abbrev Value.TwinAll (ρ : Pairing) : List Value → List Value → Prop := List.Forall₂ (Value.Twin ρ)

theorem Value.TwinAll.alike {ρ : Pairing} {vs ws : List Value} (h : Value.TwinAll ρ vs ws) :
    List.Forall₂ Value.Alike vs ws :=
  List.Forall₂.imp (fun _ _ hv => hv.twin_alike) h

/-! ## Members of host types -/

namespace Member

variable {ρ : Pairing} {levels : List Level} {types : Registry} (htypes : types.Uniform) {v w r r' : Value}
  {vs ws : List Value}

include htypes

theorem construct_simulates (t : HostType) (hvs : Value.TwinAll ρ vs ws) :
    Simulates ρ levels Value.Twin (construct types t vs) (construct types t ws) := by
  unfold construct
  rw [HostType.constructor?_congr _ hvs.alike, hvs.length_eq]
  cases t.constructor? ws with
  | none => exact .fail _
  | some c =>
    have hbody := Bodies.Uniform.constructors htypes c.body t
    exact .host _ fun k k' hk => hbody (Closure.Twin ρ) (fun _ _ => Closure.Twin.face) vs ws k k' hvs hk

theorem invoke_simulates (t : HostType) (receiver : Option ObjectRef) (name : String) (hvs : Value.TwinAll ρ vs ws) :
    Simulates ρ levels Value.Twin (invoke types t receiver name vs) (invoke types t receiver name ws) := by
  unfold invoke
  rw [HostType.method?_congr _ name _ hvs.alike]
  cases t.method? name ws receiver.isNone with
  | none => exact .fail _
  | some m =>
    have hbody := Bodies.Uniform.methods htypes m.body receiver
    exact .host _ fun k k' hk => hbody (Closure.Twin ρ) (fun _ _ => Closure.Twin.face) vs ws k k' hvs hk

theorem call_simulates (hv : v.Twin ρ w) (name : String) (hvs : Value.TwinAll ρ vs ws) :
    Simulates ρ levels Value.Twin (call types v name vs) (call types w name ws) := by
  cases hv with
  | data =>
    cases v with
    | type t => exact invoke_simulates htypes _ _ _ hvs
    | object o => exact invoke_simulates htypes _ _ _ hvs
    | _ => exact .fail _
  | function | mapper => exact .fail _

theorem get_simulates (hv : v.Twin ρ w) (field : String) :
    Simulates ρ levels Value.Twin (get types v field) (get types w field) := by
  cases hv with
  | data =>
    cases v with
    | object o =>
      refine .of_branches fun m m' hm => ?_
      have hfield := hm.heap.get? o field
      rw [get_object, get_object]
      generalize m.heap.get? o field = x at hfield
      generalize m'.heap.get? o field = y at hfield
      cases hfield with
      | none => exact ⟨_, _, invoke_simulates htypes _ _ _ .nil, rfl, rfl⟩
      | some hv => exact ⟨_, _, .pure hv, rfl, rfl⟩
    | type t => exact invoke_simulates htypes _ _ _ .nil
    | _ => exact .fail _
  | function | mapper => exact .fail _

theorem set_simulates (hr : r.Twin ρ r') (field : String) (hv : v.Twin ρ w) :
    Simulates ρ levels Value.Twin (set types r field v) (set types r' field w) := by
  cases hr with
  | data =>
    cases r with
    | object o =>
      refine .of_branches fun m m' hm => ?_
      have hfield := hm.heap.set? o field hv
      rw [set_object, set_object]
      generalize m.heap.set? o field v = x at hfield
      generalize m'.heap.set? o field w = y at hfield
      cases hfield with
      | none =>
        refine ⟨_, _, (invoke_simulates htypes _ _ _ (.cons hv .nil)).bind [] (fun _ => keeps_pure v) ?_, rfl, rfl⟩
        exact fun ρ' hρ' _ _ _ => .pure (hv.twin_mono hρ')
      | @some k k' hk =>
        refine ⟨fun m => .ok v { m with heap := k }, fun m => .ok w { m with heap := k' }, .of_result fun m m' hm => ?_,
          rfl, rfl⟩
        exact .ok hv ⟨hm.scopes, hm.current, hm.current', hm.callDepth, hk, hm.output, hm.declarations⟩
    | _ => exact .fail _
  | function | mapper => exact .fail _

end Member

/-! ## Trees -/

theorem Literal.value_ne_function {l : Literal} {v : Value} (h : l.value = .ok v) (f : Closure) : v ≠ .function f := by
  cases l with
  | int n =>
    simp only [Literal.value] at h
    split at h <;> cases h <;> exact nofun
  | bigInt digits =>
    simp only [Literal.value] at h
    split at h <;> cases h
    exact nofun
  | _ =>
    cases h
    exact nofun

/-- Host types that do not look into closures, and a way to run closures: twin closures on related values come to
results that agree, and declare nothing. -/
structure Surroundings (types : Registry) (invoke : Invoke) : Prop where
  uniform : types.Uniform
  keeps : ∀ f bindings, Keeps [] (invoke f bindings)
  simulates : ∀ (ρ : Pairing) (levels : List Level) (f g : Closure) (xs ys : List (String × Value)), f.Twin ρ g →
    List.Forall₂ (Value.RelatedEntry (Closure.Twin ρ)) xs ys →
      EvalM.Simulates ρ levels Value.Twin (invoke f xs) (invoke g ys)

section

variable {types : Registry} {invoke : Invoke}

theorem related_zip {ρ : Pairing} {vs ws : List Value} (h : Value.TwinAll ρ vs ws) (names : List String) :
    List.Forall₂ (Value.RelatedEntry (Closure.Twin ρ)) (names.zip vs) (names.zip ws) := by
  induction h generalizing names with
  | nil => rw [List.zip_nil_right]; exact .nil
  | cons hv _ ih =>
    cases names with
    | nil => exact .nil
    | cons name names => exact .cons ⟨rfl, hv⟩ (ih names)

theorem truth_simulates {ρ : Pairing} {levels : List Level} {v w : Value} (op : LogicalOp) (p q : Position)
    (hv : v.Twin ρ w) : Simulates ρ levels Same (truth op p v) (truth op q w) := by
  cases hv with
  | data =>
    cases v with
    | bool b => exact .pure rfl
    | _ => exact (Simulates.fail _).placed p q
  | function | mapper => exact (Simulates.fail _).placed p q

theorem callValue_simulates (env : Surroundings types invoke) {ρ : Pairing} {levels : List Level}
    {v w : Value} {vs ws : List Value} (hv : v.Twin ρ w) (hvs : Value.TwinAll ρ vs ws) :
    Simulates ρ levels Value.Twin (callValue types invoke v vs) (callValue types invoke w ws) := by
  cases hv with
  | data h =>
    cases v with
    | type t => exact Member.construct_simulates env.uniform t hvs
    | function f => exact absurd rfl (h f)
    | _ => exact .fail _
  | @function f g hf =>
    have hnames : g.declaration.parameters.map Ident.name = f.declaration.parameters.map Ident.name := by
      rw [hf.declaration, FunctionDecl.bare, List.map_map]
      rfl
    simp only [callValue, hnames, ← hf.arity, ← hf.name, ← hvs.length_eq]
    split
    · exact env.simulates ρ levels f g _ _ hf (related_zip hvs _)
    · exact .fail _
  | mapper h =>
    have hname : _ = _ := congrArg (·.2.1) h
    simp only [Closure.face] at hname
    simp only [callValue, hname]
    exact .fail _

mutual

/-- An expression means what its bare tree means. -/
theorem evalExpr_simulates (env : Surroundings types invoke) (e : Expr) (ρ : Pairing) (levels : List Level) :
    Simulates ρ levels Value.Twin (evalExpr types invoke e) (evalExpr types invoke e.bare) := by
  have hkeeps := env.keeps
  cases e with
  | literal l p =>
    rw [Expr.bare, evalExpr, evalExpr]
    exact (Simulates.ofExcept fun v hv => .data (Literal.value_ne_function hv)).placed _ _
  | binary op left right p =>
    rw [Expr.bare, evalExpr, evalExpr]
    refine ((evalExpr_simulates env left ρ levels).bind [] (fun _ => (evalExpr_keeps hkeeps right).bind fun _ =>
      keeps_ofExcept _) fun ρ₁ _ v v' hv => ?_).placed _ _
    refine (evalExpr_simulates env right ρ₁ levels).bind [] (fun _ => keeps_ofExcept _) fun ρ₂ hρ₂ w w' hw => ?_
    rw [← BinaryOp.apply_congr (hv.twin_mono hρ₂).twin_alike hw.twin_alike]
    exact .ofExcept fun u hu => .data (BinaryOp.apply_ne_function hu)
  | logical op left right p =>
    rw [Expr.bare, evalExpr, evalExpr]
    have hright : Keeps [] (evalExpr types invoke right >>= fun v => truth op right.position v >>= fun r =>
        pure (Value.bool r)) :=
      (evalExpr_keeps hkeeps right).bind fun _ => (truth_keeps ..).bind fun _ => keeps_pure _
    have hrest : ∀ l : Bool, Keeps [] (if op.decided l = true then pure (Value.bool l) else
        evalExpr types invoke right >>= fun v => truth op right.position v >>= fun r => pure (Value.bool r)) := by
      intro l
      split
      · exact keeps_pure _
      · exact hright
    refine ((evalExpr_simulates env left ρ levels).bind [] (fun _ => (truth_keeps ..).bind hrest)
      fun ρ₁ _ v v' hv => ?_).placed _ _
    refine (truth_simulates op _ _ hv).bind [] hrest fun ρ₂ _ l l' hl => ?_
    cases hl
    split
    · exact .pure (.data nofun)
    refine (evalExpr_simulates env right ρ₂ levels).bind [] (fun _ => (truth_keeps ..).bind fun _ => keeps_pure _)
      fun ρ₃ _ w w' hw => ?_
    refine (truth_simulates op _ _ hw).bind [] (fun _ => keeps_pure _) fun ρ₄ _ r r' hr => ?_
    cases hr
    exact .pure (.data nofun)
  | unary op operand p =>
    rw [Expr.bare, evalExpr, evalExpr]
    refine ((evalExpr_simulates env operand ρ levels).bind [] (fun _ => keeps_ofExcept _)
      fun ρ₁ _ v v' hv => ?_).placed _ _
    rw [← UnaryOp.apply_congr hv.twin_alike]
    exact .ofExcept fun u hu => .data (UnaryOp.apply_ne_function hu)
  | grouping inner p =>
    rw [Expr.bare, evalExpr]
    exact (evalExpr_simulates env inner ρ levels).placedLeft p
  | name i =>
    rw [Expr.bare, evalExpr, evalExpr]
    exact (Simulates.lookup i.name).placed _ _
  | assign target value =>
    rw [Expr.bare, evalExpr, evalExpr]
    refine ((evalExpr_simulates env value ρ levels).bind [] (fun _ => (keeps_assign ..).bind fun _ => keeps_pure _)
      fun ρ₁ _ v v' hv => ?_).placed _ _
    exact (Simulates.assign hv target.name).bind [] (fun _ => keeps_pure _) fun ρ₂ hρ₂ _ _ _ => .pure (hv.twin_mono hρ₂)
  | call callee arguments p =>
    rw [Expr.bare, evalExpr, evalExpr]
    refine ((evalExpr_simulates env callee ρ levels).bind [] (fun _ => (evalExprs_keeps hkeeps arguments).bind fun _ =>
      callValue_keeps hkeeps ..) fun ρ₁ _ v v' hv => ?_).placed _ _
    exact (evalExprs_simulates env arguments ρ₁ levels).bind [] (fun _ => callValue_keeps hkeeps ..)
      fun ρ₂ hρ₂ vs vs' hvs => callValue_simulates env (hv.twin_mono hρ₂) hvs
  | callMethod receiver method arguments =>
    rw [Expr.bare, evalExpr, evalExpr]
    refine ((evalExpr_simulates env receiver ρ levels).bind []
      (fun _ => (evalExprs_keeps hkeeps arguments).bind fun _ => Member.call_keeps ..)
      fun ρ₁ _ v v' hv => ?_).placed _ _
    exact (evalExprs_simulates env arguments ρ₁ levels).bind [] (fun _ => Member.call_keeps ..) fun ρ₂ hρ₂ vs vs' hvs =>
      Member.call_simulates env.uniform (hv.twin_mono hρ₂) method.name hvs
  | getField receiver field =>
    rw [Expr.bare, evalExpr, evalExpr]
    exact ((evalExpr_simulates env receiver ρ levels).bind [] (fun _ => Member.get_keeps ..) fun ρ₁ _ v v' hv =>
      Member.get_simulates env.uniform hv field.name).placed _ _
  | setField receiver field value =>
    rw [Expr.bare, evalExpr, evalExpr]
    refine ((evalExpr_simulates env receiver ρ levels).bind [] (fun _ => (evalExpr_keeps hkeeps value).bind fun _ =>
      Member.set_keeps ..) fun ρ₁ _ r r' hr => ?_).placed _ _
    exact (evalExpr_simulates env value ρ₁ levels).bind [] (fun _ => Member.set_keeps ..) fun ρ₂ hρ₂ v v' hv =>
      Member.set_simulates env.uniform (hr.twin_mono hρ₂) field.name hv

theorem evalExprs_simulates (env : Surroundings types invoke) (es : List Expr) (ρ : Pairing) (levels : List Level) :
    Simulates ρ levels Value.TwinAll (evalExprs types invoke es) (evalExprs types invoke (Expr.bareAll es)) := by
  have hkeeps := env.keeps
  cases es with
  | nil =>
    rw [Expr.bareAll, evalExprs]
    exact .pure .nil
  | cons e es =>
    rw [Expr.bareAll, evalExprs, evalExprs]
    refine (evalExpr_simulates env e ρ levels).bind [] (fun _ => (evalExprs_keeps hkeeps es).bind fun _ => keeps_pure _)
      fun ρ₁ _ v v' hv => ?_
    exact (evalExprs_simulates env es ρ₁ levels).bind [] (fun _ => keeps_pure _) fun ρ₂ hρ₂ vs vs' hvs =>
      .pure (.cons (hv.twin_mono hρ₂) hvs)

end

theorem declare_simulates {ρ : Pairing} {id id' : ScopeId} {levels : List Level} {make : Closure → Value}
    (hmake : ∀ (ρ : Pairing) (f g : Closure), f.Twin ρ g → (make f).Twin ρ (make g)) (d : FunctionDecl) :
    Simulates ρ ((id, some id') :: levels) Outcome.Twin (declare make d) (declare make d.bare) := by
  refine (Simulates.close d).bind [d.name.name] (fun _ => (keeps_define List.mem_cons_self _).bind fun _ =>
    keeps_pure _) fun ρ₁ _ f g hf => ?_
  exact (Simulates.define (hmake ρ₁ f g hf) d.name.name).bind [] (fun _ => keeps_pure _) fun _ _ _ _ _ =>
    .pure (.done .null)

theorem define_simulates {ρ : Pairing} {id id' : ScopeId} {levels : List Level} {v w : Value} (hv : v.Twin ρ w)
    (name : String) : Simulates ρ ((id, some id') :: levels) Outcome.Twin
      (define name v >>= fun _ => pure (.done .null)) (define name w >>= fun _ => pure (.done .null)) :=
  (Simulates.define hv name).bind [] (fun _ => keeps_pure _) fun _ _ _ _ _ => .pure (.done .null)

/-- What a conditional makes of related values of its condition. -/
theorem condition_simulates {ρ : Pairing} {levels : List Level} {v w : Value} {p q : Position}
    {thenRun thenRun' elseRun elseRun' : EvalM Outcome}
    (hthen : Simulates ρ levels Outcome.Twin thenRun thenRun')
    (helse : Simulates ρ levels Outcome.Twin elseRun elseRun') :
    v.Twin ρ w → Simulates ρ levels Outcome.Twin
      (match v with
      | .bool true => thenRun
      | .bool false => elseRun
      | v => placed p (fail (.nonBooleanCondition v.typeName)))
      (match w with
      | .bool true => thenRun'
      | .bool false => elseRun'
      | v => placed q (fail (.nonBooleanCondition v.typeName))) := by
  intro hv
  cases hv with
  | data =>
    cases v with
    | bool b =>
      cases b with
      | true => exact hthen
      | false => exact helse
    | _ => exact (Simulates.fail _).placed p q
  | function | mapper => exact (Simulates.fail _).placed p q

theorem exprStmt_simulates (env : Surroundings types invoke) (e : Expr) (ρ : Pairing)
    (levels : List Level) :
    Simulates ρ levels Outcome.Twin (execStmt types invoke (.expr e)) (execStmt types invoke (.expr e.bare)) := by
  rw [execStmt, execStmt]
  exact (evalExpr_simulates env e ρ levels).bind [] (fun _ => keeps_pure _) fun _ _ _ _ hv =>
    .pure (.done hv)

theorem execStmt_block (body : List Stmt) : execStmt types invoke (.block body) =
    fun m => EvalM.within m.current [] (execBody types invoke .null body) m := by
  rw [execStmt]

/-- A body of one expression statement is that statement. -/
theorem execBody_expr (last : Value) (e : Expr) :
    execBody types invoke last [.expr e] = execStmt types invoke (.expr e) := by
  simp only [execBody, execStmt, bind_assoc, pure_bind]

/-- Without its braces a statement is the same, unless it is a block of one expression statement. -/
theorem Stmt.bare_unbraced (s : Stmt) : (∃ e, s = .block [.expr e]) ∨ s.bare.unbraced = s.bare := by
  cases s with
  | block body =>
    match body with
    | [.expr e] => exact .inl ⟨e, rfl⟩
    | [] => exact .inr rfl
    | s :: t :: ss =>
      refine .inr ?_
      rw [bare, bareAll, bareAll]
      cases s.bare <;> rfl
    | [.ret (some _) _] => exact .inr rfl
    | [.ret none _] => exact .inr rfl
    | [.define ..] | [.print _] | [.ifThen ..] | [.ifElse ..] | [.block _] | [.function ..] | [.mapper ..]
    | [.importType ..] => exact .inr rfl
  | ret value =>
    cases value <;> exact .inr rfl
  | _ => exact .inr rfl

/-- A first branch of a conditional means what it does without braces around an expression statement: the scope that the
braces open stays empty. -/
theorem branch_simulates (env : Surroundings types invoke) {s : Stmt} {ρ : Pairing}
    {id id' : ScopeId} {levels : List Level}
    (h : Simulates ρ ((id, some id') :: levels) Outcome.Twin (execStmt types invoke s) (execStmt types invoke s.bare)) :
    Simulates ρ ((id, some id') :: levels) Outcome.Twin (execStmt types invoke s)
      (execStmt types invoke s.bare.unbraced) := by
  rcases s.bare_unbraced with ⟨e, rfl⟩ | he
  · have hrun : ∀ m, m.current = id → execStmt types invoke (.block [.expr e]) m =
        EvalM.within id [] (execStmt types invoke (.expr e)) m := by
      intro m hm
      rw [execStmt_block, execBody_expr, ← hm]
    refine .of_branches fun m m' hm => ⟨_, _, ?_, hrun m (Option.some.inj hm.current).symm, rfl⟩
    exact .withinExtra fun i => exprStmt_simulates env e ρ ((i, none) :: (id, some id') :: levels)
  · rw [he]
    exact h

mutual

/-- A statement means what its bare tree means. -/
theorem execStmt_simulates (env : Surroundings types invoke) (s : Stmt) (ρ : Pairing)
    (id id' : ScopeId) (levels : List Level) :
    Simulates ρ ((id, some id') :: levels) Outcome.Twin (execStmt types invoke s) (execStmt types invoke s.bare) := by
  have hkeeps := env.keeps
  have heval := fun e ρ => evalExpr_simulates env e ρ ((id, some id') :: levels)
  cases s with
  | expr e =>
    rw [Stmt.bare]
    exact exprStmt_simulates env e ρ _
  | define name value =>
    rw [Stmt.bare, execStmt, execStmt]
    exact (heval value ρ).bind [name.name] (fun _ => (keeps_define List.mem_cons_self _).bind fun _ => keeps_pure _)
      fun ρ₁ _ v v' hv => define_simulates hv name.name
  | print e =>
    rw [Stmt.bare, execStmt, execStmt]
    refine (heval e ρ).bind [] (fun _ => (keeps_print _).bind fun _ => keeps_pure _) fun ρ₁ _ v v' hv => ?_
    exact (Simulates.print hv).bind [] (fun _ => keeps_pure _) fun _ _ _ _ _ => .pure (.done .null)
  | ifThen condition thenBranch =>
    rw [Stmt.bare, execStmt, execStmt]
    refine (heval condition ρ).bind thenBranch.declares
      (fun _ => condition_keeps (execStmt_keeps hkeeps thenBranch) (keeps_pure _)) fun ρ₁ _ v v' hv => ?_
    refine condition_simulates (branch_simulates env ?_) (.pure (.done .null)) hv
    exact execStmt_simulates env thenBranch ρ₁ id id' levels
  | ifElse condition thenBranch elseBranch =>
    rw [Stmt.bare, execStmt, execStmt]
    refine (heval condition ρ).bind (thenBranch.declares ++ elseBranch.declares) (fun _ => condition_keeps
      ((execStmt_keeps hkeeps thenBranch).mono fun _ h => List.mem_append_left _ h)
      ((execStmt_keeps hkeeps elseBranch).mono fun _ h => List.mem_append_right _ h)) fun ρ₁ _ v v' hv => ?_
    refine condition_simulates (branch_simulates env ?_) ?_ hv
    · exact execStmt_simulates env thenBranch ρ₁ id id' levels
    · exact execStmt_simulates env elseBranch ρ₁ id id' levels
  | block body =>
    rw [Stmt.bare, execStmt_block, execStmt_block]
    refine .of_branches fun m m' hm => ⟨EvalM.within id [] (execBody types invoke .null body),
      EvalM.within id' [] (execBody types invoke .null (Stmt.bareAll body)), ?_, ?_, ?_⟩
    · exact .within List.mem_cons_self .nil fun ρ₁ _ i i' =>
        execBody_simulates env .null body i i' ((id, some id') :: levels)
    · rw [show id = m.current from Option.some.inj hm.current]
    · rw [show id' = m'.current from Option.some.inj hm.current']
  | function name parameters body =>
    rw [Stmt.bare, execStmt, execStmt]
    exact declare_simulates (fun _ _ _ h => .function h) ⟨name, parameters, body⟩
  | mapper name parameters body =>
    rw [Stmt.bare, execStmt, execStmt]
    exact declare_simulates (fun _ _ _ h => .mapper h.face) ⟨name, parameters, body⟩
  | ret value p =>
    cases value with
    | none =>
      rw [Stmt.bare, execStmt, execStmt]
      exact .pure (.returned .null)
    | some value =>
      rw [Stmt.bare, execStmt, execStmt]
      exact (heval value ρ).bind [] (fun _ => keeps_pure _) fun _ _ _ _ hv => .pure (.returned hv)
  | importType path localName =>
    rw [Stmt.bare, execStmt, execStmt]
    cases types.find? path with
    | some t =>
      have htype : (Value.type t).Twin ρ (.type t) := .data nofun
      exact define_simulates htype localName.name
    | none => exact (Simulates.fail _).placed _ _

theorem execBody_simulates (env : Surroundings types invoke) {last last' : Value} {ρ : Pairing}
    (hlast : last.Twin ρ last') (ss : List Stmt) (id id' : ScopeId) (levels : List Level) :
    Simulates ρ ((id, some id') :: levels) Outcome.Twin (execBody types invoke last ss)
      (execBody types invoke last' (Stmt.bareAll ss)) := by
  cases ss with
  | nil =>
    rw [Stmt.bareAll, execBody, execBody]
    exact .pure (.done hlast)
  | cons s ss =>
    rw [Stmt.bareAll, execBody, execBody]
    refine (execStmt_simulates env s ρ id id' levels).bind (ss.flatMap Stmt.declares) (fun outcome => ?_)
      fun ρ₁ _ o o' ho => ?_
    · cases outcome with
      | done v => exact execBody_keeps env.keeps v ss
      | returned v => exact keeps_pure _
    · cases ho with
      | done hv => exact execBody_simulates env hv ss id id' levels
      | returned hv => exact .pure (.returned hv)

end

end

/-! ## Calls -/

/-- What the bodies of twin closures come to, in scopes that stand for each other. -/
theorem closureBody_simulates {types : Registry} {invoke : Invoke} (env : Surroundings types invoke) {ρ : Pairing}
    {levels : List Level} {f g : Closure} {xs ys : List (String × Value)} (hf : f.Twin ρ g)
    (hlive : (f.scope, some g.scope) ∈ levels) (hargs : List.Forall₂ (Value.RelatedEntry (Closure.Twin ρ)) xs ys) :
    Simulates ρ levels Value.Twin
      (EvalM.called (EvalM.within f.scope xs (execBody types invoke .null f.declaration.body)) >>= fun outcome =>
        pure outcome.value)
      (EvalM.called (EvalM.within g.scope ys (execBody types invoke .null g.declaration.body)) >>= fun outcome =>
        pure outcome.value) := by
  have hbody : g.declaration.body = Stmt.bareAll f.declaration.body := by
    rw [hf.declaration]
    rfl
  rw [hbody]
  have hcall : Simulates ρ levels Outcome.Twin _ _ := (Simulates.within hlive hargs fun ρ₁ _ i i' =>
    execBody_simulates env .null f.declaration.body i i' levels).called
  refine hcall.bind [] (fun _ => keeps_pure _) fun ρ₁ _ o o' ho => ?_
  cases ho with
  | done hv | returned hv => exact .pure hv

/-- Twin closures are both live or both expired, and what the first one's body means the second one's means. -/
theorem callWithin_simulates {types : Registry} (htypes : types.Uniform) (limit room : Nat) :
    Surroundings types (callWithin types limit room) := by
  induction room with
  | zero =>
    refine ⟨htypes, callWithin_keeps limit 0, fun ρ levels f g xs ys hf _ => ?_⟩
    simp only [callWithin, ← hf.name]
    refine (Simulates.isLive hf.scope).bind [] (fun _ => ?_) fun ρ₁ _ live live' hlive => ?_
    · split <;> exact keeps_fail _
    · obtain ⟨rfl, -⟩ := hlive
      split <;> exact .fail _
  | succ room ih =>
    refine ⟨htypes, callWithin_keeps limit (room + 1), fun ρ levels f g xs ys hf hargs => ?_⟩
    have hdepth : ∀ depth : Nat, Keeps [] (if limit ≤ depth then fail (.callDepthExceeded limit) else
        EvalM.called (EvalM.within f.scope xs
          (execBody types (callWithin types limit room) .null f.declaration.body)) >>= fun outcome =>
            pure outcome.value) := by
      intro depth
      split
      · exact keeps_fail _
      · exact ((execBody_keeps ih.keeps _ _).within _ _).called.bind fun _ => keeps_pure _
    simp only [callWithin, ← hf.name]
    refine (Simulates.isLive hf.scope).bind [] (fun live => ?_) fun ρ₁ hρ₁ live live' hlive => ?_
    · split
      · exact keeps_callDepth.bind hdepth
      · exact keeps_fail _
    obtain ⟨rfl, hmem⟩ := hlive
    split
    next hl =>
      refine Simulates.callDepth.bind [] hdepth fun ρ₂ hρ₂ depth depth' hsame => ?_
      cases hsame
      split
      · exact .fail _
      · have hρ : ∀ a b, ρ a b → ρ₂ a b := fun a b hab => hρ₂ a b (hρ₁ a b hab)
        exact closureBody_simulates ih (hf.mono hρ) (hmem hl)
          (List.Forall₂.imp (fun _ _ he => ⟨he.1, he.2.twin_mono hρ⟩) hargs)
    next => exact .fail _

end QueryTemplate
