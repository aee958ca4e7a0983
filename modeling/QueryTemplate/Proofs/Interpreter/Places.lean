import QueryTemplate.Proofs.Interpreter.CallLimit
import QueryTemplate.Proofs.Interpreter.Isolation
import QueryTemplate.Proofs.Interpreter.Lifetime
import QueryTemplate.Proofs.Tree.Places

/-!
# Places of errors

A fault has no place where it arises, and the error gets one on its way out: that of the innermost expression around it.
So it matters that everything which can fail is carried out inside of such an expression, as the plans of trees say
(`exprPlan_placed`, `stmtPlan_placed`), and that the body of every closure that is called has its places in the same
text. Both are kept by every step of a process (`Process.Placed.step`), and at the end an error has a place of the text
(`Interpreter.Rests.perform`). The call of a mapper for a row is the only one that is made outside of any expression; it
cannot fail before the body is carried out (`Interpreter.Rests.mapRow`).
-/

namespace QueryTemplate

open EvalM Process Relation

/-! ## Plans -/

variable {P : Position → Prop} {ρ : Link} {covered : Bool}

/-- The action cannot fail, or there is an expression around it; positions in a declaration have the property. -/
def Action.Placed (P : Position → Prop) (covered : Bool) : Action → Prop
  | define .. | print _ => True
  | function d | mapper d => d.Placed P
  | _ => covered = true

theorem Action.Placed.covered_of_error {types : Registry} {a : Action} {m m' : Machine} {e : EvalError}
    (h : a.Placed P covered) (he : a.run types m = .error e m') : covered = true := by
  cases a with
  | define | print | function | mapper => cases he
  | _ => exact h

/-- What can fail is inside of an expression, here or in what is around the plan, and all these expressions have places
with the property. Values are linked to themselves: they hold no closures and no objects but those of the link. -/
inductive Plan.Placed (ρ : Link) (P : Position → Prop) : Bool → Plan → Prop
  | done {covered : Bool} {o : Outcome} (h : o.Linked ρ o) : Placed ρ P covered (.done o)
  | act {covered : Bool} {a : Action} (h : a.Linked ρ a) (hp : a.Placed P covered) : Placed ρ P covered (.act a)
  | call {covered : Bool} {f : Closure} {bindings : List (String × Value)} (hf : ρ.function f)
    (hb : List.Forall₂ (Value.LinkedEntry ρ) bindings bindings) (hc : covered = true) :
    Placed ρ P covered (.call f bindings)
  | placed {covered : Bool} {p : Position} {x : Plan} (hp : P p) (h : Placed ρ P true x) :
    Placed ρ P covered (.placed p x)
  | block {covered : Bool} {x : Plan} (h : Placed ρ P covered x) : Placed ρ P covered (.block x)
  | seq {covered : Bool} {x : Plan} {next : Outcome → Plan} (h : Placed ρ P covered x)
    (hnext : ∀ o, o.Linked ρ o → Placed ρ P covered (next o)) : Placed ρ P covered (.seq x next)

namespace Plan.Placed

theorem value {v : Value} (h : v.Linked ρ v) : Plan.Placed ρ P covered (.value v) := .done (.done h)

theorem fail (fault : EvalFault) : Plan.Placed ρ P true (.fail fault) := .act (.yield nofun) rfl

theorem andThen {x : Plan} {next : Value → Plan} (h : x.Placed ρ P covered)
    (hnext : ∀ v, v.Linked ρ v → (next v).Placed ρ P covered) : (x.andThen next).Placed ρ P covered :=
  .seq h fun _ ho => hnext _ ho.value

theorem callPlan {callee : Value} {arguments : List Value} (h : callee.Linked ρ callee)
    (hs : List.Forall₂ (Value.Linked ρ) arguments arguments) : (callPlan callee arguments).Placed ρ P true := by
  cases callee with
  | function f =>
    cases h with
    | plain h => cases h
    | function hf _ =>
      simp only [QueryTemplate.callPlan]
      split
      · exact .call hf (linked_zip _ hs) rfl
      · exact .fail _
  | type path => exact .act (.construct path hs) rfl
  | _ => exact .fail _

theorem truthPlan {op : LogicalOp} {p : Position} (hp : P p) {v : Value} {next : Bool → Plan}
    (hnext : ∀ b, (next b).Placed ρ P true) : (truthPlan op p v next).Placed ρ P true := by
  cases v with
  | bool b => exact hnext b
  | _ => exact .placed hp (.fail _)

theorem conditionPlan {p : Position} (hp : P p) {v : Value} {x y : Plan} (hx : x.Placed ρ P covered)
    (hy : y.Placed ρ P covered) : (conditionPlan p v x y).Placed ρ P covered := by
  cases v with
  | bool b =>
    cases b with
    | true => exact hx
    | false => exact hy
  | _ => exact .placed hp (.fail _)

end Plan.Placed

mutual

/-- All of an expression is carried out inside of it. -/
theorem exprPlan_placed {covered : Bool} {e : Expr} (h : e.Placed P) : e.plan.Placed ρ P covered := by
  match e with
  | .literal l p =>
    rw [Expr.Placed] at h
    rw [Expr.plan]
    exact .placed h (.act (.yield fun v => literal_isPlain) rfl)
  | .binary op left right p =>
    rw [Expr.Placed] at h
    obtain ⟨hl, hr, hp⟩ := h
    rw [Expr.plan]
    exact .placed hp ((exprPlan_placed hl).andThen fun l _ => (exprPlan_placed hr).andThen fun r _ =>
      .act (.yield fun v => BinaryOp.apply_isPlain) rfl)
  | .logical op left right p =>
    rw [Expr.Placed] at h
    obtain ⟨hl, hr, hp⟩ := h
    rw [Expr.plan]
    refine .placed hp ((exprPlan_placed hl).andThen fun l _ => .truthPlan hl.position fun b => ?_)
    split
    · exact .value (.plain rfl)
    · exact (exprPlan_placed hr).andThen fun r _ => .truthPlan hr.position fun c => .value (.plain rfl)
  | .unary op operand p =>
    rw [Expr.Placed] at h
    rw [Expr.plan]
    exact .placed h.2 ((exprPlan_placed h.1).andThen fun v _ => .act (.yield fun v => UnaryOp.apply_isPlain) rfl)
  | .grouping inner p =>
    rw [Expr.Placed] at h
    rw [Expr.plan]
    exact .placed h.2 (exprPlan_placed h.1)
  | .name i =>
    rw [Expr.Placed] at h
    rw [Expr.plan]
    exact .placed h (.act (.lookup i.name) rfl)
  | .assign target value =>
    rw [Expr.Placed] at h
    rw [Expr.plan]
    exact .placed h.1 ((exprPlan_placed h.2).andThen fun v hv => .act (.assign target.name hv) rfl)
  | .call callee arguments p =>
    rw [Expr.Placed] at h
    obtain ⟨hc, ha, hp⟩ := h
    rw [Expr.plan]
    exact .placed hp ((exprPlan_placed hc).andThen fun f hf => exprPlans_placed ha fun vs hs => .callPlan hf hs)
  | .callMethod receiver method arguments =>
    rw [Expr.Placed] at h
    obtain ⟨hr, hp, ha⟩ := h
    rw [Expr.plan]
    exact .placed hp ((exprPlan_placed hr).andThen fun r hr => exprPlans_placed ha fun vs hs =>
      .act (.callMember hr method.name hs) rfl)
  | .getField receiver field =>
    rw [Expr.Placed] at h
    rw [Expr.plan]
    exact .placed h.2 ((exprPlan_placed h.1).andThen fun r hr => .act (.getMember hr field.name) rfl)
  | .setField receiver field value =>
    rw [Expr.Placed] at h
    obtain ⟨hr, hp, hv⟩ := h
    rw [Expr.plan]
    exact .placed hp ((exprPlan_placed hr).andThen fun r hr => (exprPlan_placed hv).andThen fun v hv =>
      .act (.setMember hr field.name hv) rfl)

theorem exprPlans_placed {covered : Bool} {es : List Expr} (h : Expr.AllPlaced P es) {next : List Value → Plan}
    (hnext : ∀ vs, List.Forall₂ (Value.Linked ρ) vs vs → (next vs).Placed ρ P covered) :
    (Expr.plans es next).Placed ρ P covered := by
  match es with
  | [] =>
    rw [Expr.plans]
    exact hnext [] .nil
  | e :: es =>
    rw [Expr.AllPlaced] at h
    rw [Expr.plans]
    exact (exprPlan_placed h.1).andThen fun v hv => exprPlans_placed h.2 fun vs hs => hnext _ (.cons hv hs)

end

mutual

/-- What can fail of a statement is inside of an expression of it. -/
theorem stmtPlan_placed {covered : Bool} {s : Stmt} (h : s.Placed P) : s.plan.Placed ρ P covered := by
  match s with
  | .expr e =>
    rw [Stmt.Placed] at h
    rw [Stmt.plan]
    exact exprPlan_placed h
  | .define name value =>
    rw [Stmt.Placed] at h
    rw [Stmt.plan]
    exact (exprPlan_placed h.2).andThen fun v hv => .act (.define name.name hv) trivial
  | .print e =>
    rw [Stmt.Placed] at h
    rw [Stmt.plan]
    exact (exprPlan_placed h).andThen fun v hv => .act (.print hv) trivial
  | .ifThen condition thenBranch =>
    rw [Stmt.Placed] at h
    rw [Stmt.plan]
    exact (exprPlan_placed h.1).andThen fun v _ =>
      .conditionPlan h.1.position (stmtPlan_placed h.2) (.value (.plain rfl))
  | .ifElse condition thenBranch elseBranch =>
    rw [Stmt.Placed] at h
    obtain ⟨hc, hthen, helse⟩ := h
    rw [Stmt.plan]
    exact (exprPlan_placed hc).andThen fun v _ =>
      .conditionPlan hc.position (stmtPlan_placed hthen) (stmtPlan_placed helse)
  | .block body =>
    rw [Stmt.Placed] at h
    rw [Stmt.plan]
    exact .block (stmtPlans_placed (.plain rfl) h)
  | .function name parameters body =>
    rw [Stmt.Placed] at h
    rw [Stmt.plan]
    exact .act (.function _) ⟨h.1, h.2.1, h.2.2⟩
  | .mapper name parameters body =>
    rw [Stmt.Placed] at h
    rw [Stmt.plan]
    exact .act (.mapper _) ⟨h.1, h.2.1, h.2.2⟩
  | .ret none p =>
    rw [Stmt.plan]
    exact .done (.returned (.plain rfl))
  | .ret (some value) p =>
    rw [Stmt.Placed] at h
    rw [Stmt.plan]
    exact (exprPlan_placed (h.1 value rfl)).andThen fun v hv => .done (.returned hv)
  | .importType path localName =>
    rw [Stmt.Placed] at h
    rw [Stmt.plan]
    exact .placed h (.act (.importType path localName.name) rfl)

theorem stmtPlans_placed {covered : Bool} {last : Value} (hlast : last.Linked ρ last) {ss : List Stmt}
    (h : Stmt.AllPlaced P ss) : (Stmt.plans last ss).Placed ρ P covered := by
  match ss with
  | [] =>
    rw [Stmt.plans]
    exact .value hlast
  | s :: ss =>
    rw [Stmt.AllPlaced] at h
    rw [Stmt.plans]
    refine .seq (stmtPlan_placed h.1) fun o ho => ?_
    cases ho with
    | done hv => exact stmtPlans_placed hv h.2
    | returned hv => exact .done (.returned hv)

end

/-! ## Processes -/

/-- Whether an error gets a place afterwards. -/
def Frame.placing (fs : List Frame) : Bool :=
  fs.any fun
    | .placed _ => true
    | _ => false

/-- What is to be done afterwards is placed where it stands. -/
def Frame.AllPlaced (ρ : Link) (P : Position → Prop) : List Frame → Prop
  | [] => True
  | .next go :: fs => (∀ o, o.Linked ρ o → (go o).Placed ρ P (placing fs)) ∧ AllPlaced ρ P fs
  | .placed p :: fs => P p ∧ AllPlaced ρ P fs
  | .block _ :: fs | .call _ :: fs => AllPlaced ρ P fs

/-- What is done is placed where it stands, and an error has a place already or will get one. -/
inductive Focus.Placed (ρ : Link) (P : Position → Prop) (covered : Bool) : Focus → Prop
  | doing {x : Plan} (h : x.Placed ρ P covered) : Placed ρ P covered (.doing x)
  | ok {o : Outcome} (h : o.Linked ρ o) : Placed ρ P covered (.ended (.ok o))
  | error {e : EvalError} (h : P e.position ∨ covered = true ∧ e.position = .nowhere) :
    Placed ρ P covered (.ended (.error e))

/-- All of a process is placed, and it holds no closures and no objects but those of the link. -/
structure Process.Placed (ρ : Link) (P : Position → Prop) (c : Process) : Prop where
  focus : c.focus.Placed ρ P (Frame.placing c.frames)
  frames : Frame.AllPlaced ρ P c.frames
  machine : c.machine.Linked ρ c.machine

/-- All positions in the body of the closure have the property, and the body has the shape that the grammar gives it. -/
structure Closure.Placed (P : Position → Prop) (f : Closure) : Prop where
  placed : Stmt.AllPlaced P f.declaration.body
  shaped : Stmt.AllShaped f.declaration.body

/-- So it is with a mapper and its parameters, and it is one that was made at top level. -/
structure Closure.PlacedMapper (P : Position → Prop) (f : Closure) : Prop extends f.Placed P where
  parameters : ∀ i ∈ f.declaration.parameters, P i.position
  scope : f.scope = ScopeStore.global

/-- The functions of the link are those with positions that have the property, and such mappers are among its mappers.
-/
structure Link.Fits (ρ : Link) (P : Position → Prop) : Prop where
  function : ∀ f, ρ.function f ↔ f.Placed P
  mapper : ∀ f, f.PlacedMapper P → ρ.mapper f

namespace Process

variable {types : Registry} {limit : Nat} {c d : Process}

theorem Placed.of_act {a : Action} {fs : List Frame} {m : Machine} (ha : a.Linked ρ a)
    (hplaced : a.Placed P (Frame.placing fs)) (htypes : types.Links ρ) (hfs : Frame.AllPlaced ρ P fs)
    (hm : m.Linked ρ m) (hadmits : ρ.Admits m a) : (ofResult fs ((a.run types).outcome m)).Placed ρ P := by
  have hrun := ha.run htypes hm hadmits
  simp only [outcome, bind, EStateM.bind]
  cases hr : a.run types m with
  | ok v m' =>
    rw [hr] at hrun
    cases hrun with
    | ok hv hm' => exact ⟨.ok (.done hv), hfs, hm'⟩
  | error e m' =>
    rw [hr] at hrun
    cases hrun with
    | error hm' =>
      obtain ⟨fault, rfl, -⟩ := Action.run_error hr
      exact ⟨.error (.inr ⟨hplaced.covered_of_error hr, rfl⟩), hfs, hm'⟩

/-- An error without a place gets that of the expression, and one with a place keeps it. -/
theorem placed_place {e : EvalError} {p : Position} (hp : P p)
    (h : P e.position ∨ covered = true ∧ e.position = .nowhere) : P (e.placed p).position := by
  unfold EvalError.placed
  split
  next hsome =>
    refine h.resolve_right fun ⟨_, hnone⟩ => ?_
    rw [hnone] at hsome
    cases hsome
  next => exact hp

/-- Every step keeps this, as long as the closures that it makes are in the link. -/
theorem Placed.step (h : c.Placed ρ P) (hρ : ρ.Fits P) (htypes : types.Links ρ) (hadmitted : c.Admitted ρ)
    (hs : Step types limit c d) : d.Placed ρ P := by
  obtain ⟨hfocus, hfs, hm⟩ := h
  cases hs with
  | done =>
    cases hfocus with
    | doing h =>
      cases h with
      | done ho => exact ⟨.ok ho, hfs, hm⟩
  | act =>
    cases hfocus with
    | doing h =>
      cases h with
      | act ha hp => exact .of_act ha hp htypes hfs hm (hadmitted _ rfl)
  | seq =>
    cases hfocus with
    | doing h =>
      cases h with
      | seq hx hnext => exact ⟨.doing hx, ⟨hnext, hfs⟩, hm⟩
  | placed =>
    cases hfocus with
    | doing h =>
      cases h with
      | placed hp hx => exact ⟨.doing hx, ⟨hp, hfs⟩, hm⟩
  | block =>
    cases hfocus with
    | doing h =>
      cases h with
      | block hx => exact ⟨.doing hx, hfs, hm.enter _ .nil⟩
  | expired | tooDeep =>
    cases hfocus with
    | doing h =>
      cases h with
      | call _ _ hc => exact ⟨.error (.inr ⟨hc, rfl⟩), hfs, hm⟩
  | @call f =>
    cases hfocus with
    | doing h =>
      cases h with
      | call hf hb _ =>
        exact ⟨.doing (stmtPlans_placed (.plain rfl) ((hρ.function f).1 hf).placed), hfs, hm.begin.enter _ hb⟩
  | goOn =>
    cases hfocus with
    | ok ho => exact ⟨.doing (hfs.1 _ ho), hfs.2, hm⟩
  | giveUp =>
    cases hfocus with
    | error he => exact ⟨.error he, hfs.2, hm⟩
  | place =>
    cases hfocus with
    | ok ho => exact ⟨.ok ho, hfs.2, hm⟩
    | error he => exact ⟨.error (.inl (placed_place hfs.1 he)), hfs.2, hm⟩
  | leaveBlock =>
    cases hfocus with
    | ok ho => exact ⟨.ok ho, hfs, hm.leave _⟩
    | error he => exact ⟨.error he, hfs, hm.leave _⟩
  | leaveCall =>
    cases hfocus with
    | ok ho => exact ⟨.ok (.done ho.value), hfs, (hm.leave _).finish⟩
    | error he => exact ⟨.error he, hfs, (hm.leave _).finish⟩

/-- A process that is placed, with mappers made at top level only. -/
structure Tracked (ρ : Link) (P : Position → Prop) (c : Process) : Prop where
  placed : c.Placed ρ P
  shaped : c.Shaped
  nested : c.Nested

/-- The closures that a step makes are in the link. -/
theorem Tracked.admitted (h : c.Tracked ρ P) (hρ : ρ.Fits P) : c.Admitted ρ := by
  intro a ha
  have hplaced := h.placed.focus
  have hshaped := h.shaped.focus _ ha
  rw [ha] at hplaced
  cases hplaced with
  | doing hplaced =>
    cases hplaced with
    | act hl hp =>
      cases hshaped with
      | act hs =>
        cases a with
        | function d => exact (hρ.function _).2 ⟨hp.body, hs⟩
        | mapper d =>
          refine hρ.mapper _ ⟨⟨hp.body, hs.2⟩, hp.parameters, ?_⟩
          rw [h.nested.current, activations, activations_of_outside hs.1]
          rfl
        | _ => trivial

theorem Tracked.step (h : c.Tracked ρ P) (hρ : ρ.Fits P) (htypes : types.Links ρ) (hs : Step types limit c d) :
    d.Tracked ρ P := by
  refine ⟨h.placed.step hρ htypes (h.admitted hρ) hs, h.shaped.step (fun f bindings hf => ?_) hs, h.nested.move hs.move⟩
  have hplaced := h.placed.focus
  rw [hf] at hplaced
  cases hplaced with
  | doing hplaced =>
    cases hplaced with
    | call hf _ _ => exact ((hρ.function f).1 hf).shaped

theorem Tracked.steps (h : c.Tracked ρ P) (hρ : ρ.Fits P) (htypes : types.Links ρ) (hs : Steps types limit c d) :
    d.Tracked ρ P := by
  induction hs with
  | refl => exact h
  | tail _ hs ih => exact ih.step hρ htypes hs

end Process

/-! ## Interpreters -/

/-- An interpreter between requests, which holds no closures and no objects but those of the link. -/
structure Interpreter.Rests (ρ : Link) (i : Interpreter) : Prop where
  types : i.types.Links ρ
  machine : i.machine.Linked ρ i.machine
  nested : (start (.value .null) i.machine).Nested
  callDepth : i.machine.callDepth = 0
  callLimit : 0 < i.callLimit

/-- A result: a value that holds nothing but what is in the link, or an error with a place. -/
def Result.Placed (ρ : Link) (P : Position → Prop) : Except EvalError Value → Prop
  | .ok v => v.Linked ρ v
  | .error e => P e.position

namespace Interpreter

variable {i : Interpreter}

theorem rests_fresh {types : Registry} {limit : Nat} {heap : Heap} (output : Output) (count : Nat)
    (htypes : types.Links ρ) (hlimit : 0 < limit) (hheap : heap.Linked ρ heap) (hbefore : ρ.before = "")
    (hlater : ρ.later = 0) : ((Interpreter.fresh types limit heap output).numberedFrom count).Rests ρ := by
  have hcount : count = count + ρ.later := by rw [hlater, Nat.add_zero]
  have hlinked := Linked.fresh types limit hheap (hbefore ▸ output.linked_self) hcount
  have hnested : Nested ⟨.ended (.ok (.done .null)), [],
      ((Interpreter.fresh types limit heap output).numberedFrom count).machine⟩ := nested_fresh heap output count _
  exact ⟨htypes, hlinked.machine, hnested.move (.stay rfl rfl .same), rfl, hlimit⟩

namespace Rests

/-- The same closures have the same numbers. -/
theorem later_eq_zero (h : i.Rests ρ) : ρ.later = 0 := Nat.left_eq_add.1 h.machine.declarations

theorem defineAll (h : i.Rests ρ) {xs : List (String × Value)} (hs : List.Forall₂ (Value.LinkedEntry ρ) xs xs) :
    (i.defineAll xs).Rests ρ := by
  have hnested : ∀ (j : Interpreter) (ys : List (String × Value)), (start (.value .null) j.machine).Nested →
      (start (.value .null) (j.defineAll ys).machine).Nested := by
    intro j ys hj
    induction ys generalizing j with
    | nil => exact hj
    | cons y ys ih => exact ih (j.define y.1 y.2) (hj.move (.stay rfl rfl (.defined y.1 y.2)))
  have hself : i.Linked ρ i := ⟨rfl, rfl, h.machine⟩
  refine ⟨?_, (hself.defineAll hs).machine, hnested i xs h.nested, ?_, ?_⟩
  · rw [types_defineAll]
    exact h.types
  · rw [callDepth_defineAll, h.callDepth]
  · rw [callLimit_defineAll]
    exact h.callLimit

/-- What steps from a placed process come to in the end. -/
theorem of_steps (h : i.Rests ρ) (hρ : ρ.Fits P) {q : Request} {c : Process} (hc : c.Tracked ρ P)
    {r : Except EvalError Outcome}
    (hs : Steps i.types i.callLimit c ⟨.ended r, [], (i.perform q).2.machine⟩)
    (hr : (i.perform q).1 = r.map Outcome.value) :
    (i.perform q).2.Rests ρ ∧ Result.Placed ρ P (i.perform q).1 := by
  obtain ⟨hplaced, -, hnested⟩ := hc.steps hρ h.types hs
  refine ⟨⟨?_, hplaced.machine, hnested.move (.stay rfl rfl .same), ?_, ?_⟩, ?_⟩
  · rw [types_perform]
    exact h.types
  · exact callDepth_perform h.callDepth q
  · rw [callLimit_perform]
    exact h.callLimit
  · rw [hr]
    cases hplaced.focus with
    | ok ho => exact ho.value
    | error he => exact he.resolve_right nofun

theorem tracked_start (h : i.Rests ρ) {x : Plan} (hplaced : x.Placed ρ P false) (hshaped : x.Shaped false) :
    (start x i.machine).Tracked ρ P where
  placed := ⟨.doing hplaced, trivial, h.machine⟩
  shaped := ⟨fun y hy => by cases hy; exact hshaped, trivial⟩
  nested := h.nested.move (.stay rfl rfl .same)

/-- A request that is placed has an answer that is placed. -/
theorem perform (h : i.Rests ρ) (hρ : ρ.Fits P) {q : Request} (hplaced : q.plan.Placed ρ P false)
    (hshaped : q.plan.Shaped false) : (i.perform q).2.Rests ρ ∧ Result.Placed ρ P (i.perform q).1 := by
  obtain ⟨r, hs, hr⟩ := i.perform_steps q
  exact h.of_steps hρ (h.tracked_start hplaced hshaped) hs hr

theorem execute (h : i.Rests ρ) (hρ : ρ.Fits P) {p : Program} (hplaced : Stmt.AllPlaced P p)
    (hshaped : ∀ s ∈ p, s.Shaped) : (i.execute p).2.Rests ρ ∧ Result.Placed ρ P (i.execute p).1 :=
  h.perform (q := .execute p) hρ (stmtPlans_placed (.plain rfl) hplaced) (programPlan_shaped .null hshaped)

/-- A mapper that was made at top level begins with its body: its scope is live, and no call is in progress. -/
theorem tracked_call (h : i.Rests ρ) {f : Closure} (hf : f.PlacedMapper P) {bindings : List (String × Value)}
    (hb : List.Forall₂ (Value.LinkedEntry ρ) bindings bindings) {d : Process}
    (hs : Step i.types i.callLimit (start (.call f bindings) i.machine) d) : d.Tracked ρ P := by
  have hlive : i.machine.scopes.isLive f.scope = true := by
    rw [hf.scope]
    exact (h.nested.stack.live_iff _).2 (Activation.mem_scopes.2 (.inl rfl))
  have hnested : (start (.call f bindings) i.machine).Nested := h.nested.move (.stay rfl rfl .same)
  have hmove := hnested.move hs.move
  cases hs with
  | expired hl =>
    rw [hlive] at hl
    cases hl
  | tooDeep _ hd =>
    rw [h.callDepth] at hd
    exact absurd h.callLimit (Nat.not_lt.2 hd)
  | call =>
    have hplaced : f.plan.Placed ρ P false := stmtPlans_placed (.plain rfl) hf.placed
    have hshaped : f.plan.Shaped true := bodyPlan_shaped .null hf.shaped
    exact ⟨⟨.doing hplaced, trivial, h.machine.begin.enter _ hb⟩, ⟨fun y hy => by cases hy; exact hshaped, trivial⟩,
      hmove⟩

/-- A row has an answer that is placed. A column that is missing is reported at the parameter. -/
theorem mapRow (h : i.Rests ρ) (hρ : ρ.Fits P) {f : Closure} (hf : f.PlacedMapper P) (row : Row) :
    (i.mapRow (.mapper f) row).2.Rests ρ ∧ Result.Placed ρ P (i.mapRow (.mapper f) row).1 := by
  cases hk : keyBindings row f.declaration.parameters with
  | error e =>
    have hplan : (Request.mapRow (.mapper f) row).plan = .placed e.position (.fail e.fault) := by
      simp only [Request.plan, hk]
    obtain ⟨p, hp, rfl⟩ := keyBindings_error hk
    refine h.perform (q := .mapRow (.mapper f) row) hρ ?_ ?_
    · rw [hplan]
      exact .placed (hf.parameters p hp) (.fail _)
    · rw [hplan]
      exact .placed (.act trivial)
  | ok keys =>
    have hplan : (Request.mapRow (.mapper f) row).plan = .call f (row.bindings ++ keys) := by
      simp only [Request.plan, hk]
    have hlater : f = f.later ρ.later := by
      rw [h.later_eq_zero]
      rfl
    have hlinked : Plan.Linked ρ (.call f (row.bindings ++ keys)) (.call f (row.bindings ++ keys)) :=
      hplan ▸ (Request.Linked.mapRow (.mapper (hρ.mapper f hf) hlater) row).plan
    obtain ⟨r, hs, hr⟩ := i.perform_steps (.mapRow (.mapper f) row)
    rw [hplan] at hs
    rcases hs.cases_head with he | ⟨d, hstep, hrest⟩
    · cases he
    · cases hlinked with
      | call _ _ hb => exact h.of_steps hρ (h.tracked_call hf hb hstep) hrest hr

/-- Rows are mapped up to the first error, which has a place. -/
theorem mapRows (h : i.Rests ρ) (hρ : ρ.Fits P) {f : Closure} (hf : f.PlacedMapper P) (rows : List Row) :
    ∀ e, (i.mapRows (.mapper f) rows).1 = .error e → P e.position := by
  induction rows generalizing i with
  | nil => exact nofun
  | cons row rows ih =>
    obtain ⟨hrests, hresult⟩ := h.mapRow hρ hf row
    rw [Interpreter.mapRows]
    generalize i.mapRow (.mapper f) row = a at hrests hresult
    obtain ⟨x, j⟩ := a
    cases x with
    | error e => exact fun e' he => Except.error.inj he ▸ hresult
    | ok v =>
      intro e he
      simp only at he
      cases hrest : (j.mapRows (.mapper f) rows).1 with
      | error e' =>
        rw [hrest] at he
        cases he
        exact ih hrests e hrest
      | ok vs =>
        rw [hrest] at he
        cases he

end Rests

end Interpreter

end QueryTemplate
