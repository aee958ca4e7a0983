import QueryTemplate.Proofs.Interpreter.Frame
import QueryTemplate.Proofs.Tree.Statements

/-!
# The discipline of scopes

Every expression, statement, call and application of a mapper keeps the frame (`evalExpr_keeps`, `execStmt_keeps`,
`callWithin_keeps`): by recursion on the tree with the calls as a parameter, and by induction on the room for calls.

In a state that an interpreter can come to, the live scopes are the current one and those that will be current again
(`Machine.Stacked`). So where the global scope is current, no other scope is live.
-/

namespace QueryTemplate

/-- The names that executing a statement may bind in the current scope. -/
def Stmt.declares : Stmt → List String
  | define name _ | function name .. | mapper name .. | importType _ name => [name.name]
  | ifThen _ thenBranch => thenBranch.declares
  | ifElse _ thenBranch elseBranch => thenBranch.declares ++ elseBranch.declares
  | expr _ | print _ | block _ | ret .. => []

open EvalM

/-! ## Members of host types -/

namespace EvalM

/-- What work on host objects comes to: a value, or a fault that has no place yet. Nothing but these objects changes. -/
inductive Worked (m : Machine) : EStateM.Result EvalError Machine Value → Prop
  | ok (v : Value) (heap : Heap) : Worked m (.ok v { m with heap })
  | fault {fault : EvalFault} (h : fault.isPanic = false) (heap : Heap) :
    Worked m (.error (.ofFault fault) { m with heap })

theorem Worked.after {x : EvalM Value} {m : Machine} (h : Worked m (x m)) : ∃ heap, x.after m = { m with heap } := by
  unfold EvalM.after
  generalize x m = r at h
  cases h with
  | ok _ heap | fault _ heap => exact ⟨heap, rfl⟩

theorem keeps_of_worked {names : List String} {x : EvalM Value} (h : ∀ m, Worked m (x m)) : Keeps names x :=
  .of_same fun m => by
    obtain ⟨heap, hm⟩ := (h m).after
    rw [hm]
    exact ⟨rfl, rfl, rfl⟩

theorem host_worked (member : String) (body : HostM Value) (m : Machine) : Worked m (host member body m) := by
  unfold host
  cases body m.heap with
  | ok v heap => exact .ok v heap
  | error message heap => exact .fault rfl heap

end EvalM

namespace Member

variable {names : List String} (types : Registry) (receiver : Value) (name : String) (arguments : List Value)

theorem construct_worked (t : HostType) (m : Machine) : Worked m (construct types t arguments m) := by
  unfold construct
  cases t.constructor? arguments with
  | some c => exact host_worked ..
  | none => exact .fault rfl m.heap

theorem invoke_worked (t : HostType) (receiver : Option ObjectRef) (m : Machine) :
    Worked m (invoke types t receiver name arguments m) := by
  unfold invoke
  cases t.method? name arguments receiver.isNone with
  | some c => exact host_worked ..
  | none => exact .fault rfl m.heap

theorem call_worked (m : Machine) : Worked m (call types receiver name arguments m) := by
  cases receiver with
  | object o => exact invoke_worked ..
  | type t => exact invoke_worked ..
  | _ => exact .fault rfl m.heap

theorem get_object (o : ObjectRef) (field : String) (m : Machine) : get types (.object o) field m =
    match m.heap.get? o field with
    | some v => .ok v m
    | none => invoke types o.type (some o) (accessorName "get" field) [] m := by
  have hbind : ∀ f : Machine → EvalM Value, (EStateM.get >>= f) m = f m m := fun f => rfl
  rw [get, hbind]
  cases m.heap.get? o field <;> rfl

theorem get_worked (m : Machine) : Worked m (get types receiver name m) := by
  cases receiver with
  | object o =>
    rw [get_object]
    cases m.heap.get? o name with
    | some v => exact .ok v m.heap
    | none => exact invoke_worked ..
  | type t => exact invoke_worked ..
  | _ => exact .fault rfl m.heap

theorem set_object (o : ObjectRef) (field : String) (value : Value) (m : Machine) :
    set types (.object o) field value m =
      match m.heap.set? o field value with
      | some heap => .ok value { m with heap }
      | none =>
        (invoke types o.type (some o) (accessorName "set" field) [value] >>= fun _ => pure value) m := by
  rw [← seqRight_eq_bind]
  rfl

theorem set_worked (value : Value) (m : Machine) : Worked m (set types receiver name value m) := by
  cases receiver with
  | object o =>
    rw [set_object]
    cases m.heap.set? o name value with
    | some heap => exact .ok value heap
    | none =>
      have hinvoke := invoke_worked types (accessorName "set" name) [value] o.type (some o) m
      simp only [bind, EStateM.bind]
      generalize invoke types o.type (some o) (accessorName "set" name) [value] m = r at hinvoke
      cases hinvoke with
      | ok _ heap => exact .ok value heap
      | fault hfault heap => exact .fault hfault heap
  | _ => exact .fault rfl m.heap

theorem construct_keeps (t : HostType) : Keeps names (construct types t arguments) :=
  keeps_of_worked fun _ => construct_worked ..

theorem call_keeps : Keeps names (call types receiver name arguments) := keeps_of_worked fun _ => call_worked ..

theorem get_keeps : Keeps names (get types receiver name) := keeps_of_worked fun _ => get_worked ..

theorem set_keeps (value : Value) : Keeps names (set types receiver name value) :=
  keeps_of_worked fun _ => set_worked ..

end Member

/-! ## Trees -/

section

variable {names : List String} {types : Registry} {invoke : Invoke}

theorem callValue_keeps (hinvoke : ∀ f bindings, Keeps names (invoke f bindings)) (callee : Value)
    (arguments : List Value) : Keeps names (callValue types invoke callee arguments) := by
  cases callee with
  | function f =>
    simp only [callValue]
    split
    · exact hinvoke ..
    · exact keeps_fail _
  | type t => exact Member.construct_keeps ..
  | _ => exact keeps_fail _

theorem truth_keeps (op : LogicalOp) (p : Position) (v : Value) : Keeps names (truth op p v) := by
  cases v with
  | bool b => exact keeps_pure b
  | _ => exact (keeps_fail _).placed p

mutual

theorem evalExpr_keeps (hinvoke : ∀ f bindings, Keeps names (invoke f bindings)) (e : Expr) :
    Keeps names (evalExpr types invoke e) := by
  cases e with
  | literal l p =>
    rw [evalExpr]
    exact (keeps_ofExcept _).placed p
  | binary op left right p =>
    rw [evalExpr]
    exact ((evalExpr_keeps hinvoke left).bind fun _ => (evalExpr_keeps hinvoke right).bind fun _ =>
      keeps_ofExcept _).placed p
  | logical op left right p =>
    rw [evalExpr]
    refine ((evalExpr_keeps hinvoke left).bind fun v => (truth_keeps ..).bind fun l => ?_).placed p
    split
    · exact keeps_pure _
    · exact (evalExpr_keeps hinvoke right).bind fun _ => (truth_keeps ..).bind fun _ => keeps_pure _
  | unary op operand p =>
    rw [evalExpr]
    exact ((evalExpr_keeps hinvoke operand).bind fun _ => keeps_ofExcept _).placed p
  | grouping inner p =>
    rw [evalExpr]
    exact (evalExpr_keeps hinvoke inner).placed p
  | name i =>
    rw [evalExpr]
    exact (keeps_lookup _).placed _
  | assign target value =>
    rw [evalExpr]
    exact ((evalExpr_keeps hinvoke value).bind fun _ => (keeps_assign ..).bind fun _ => keeps_pure _).placed _
  | call callee arguments p =>
    rw [evalExpr]
    exact ((evalExpr_keeps hinvoke callee).bind fun _ => (evalExprs_keeps hinvoke arguments).bind fun _ =>
      callValue_keeps hinvoke ..).placed p
  | callMethod receiver method arguments =>
    rw [evalExpr]
    exact ((evalExpr_keeps hinvoke receiver).bind fun _ => (evalExprs_keeps hinvoke arguments).bind fun _ =>
      Member.call_keeps ..).placed _
  | getField receiver field =>
    rw [evalExpr]
    exact ((evalExpr_keeps hinvoke receiver).bind fun _ => Member.get_keeps ..).placed _
  | setField receiver field value =>
    rw [evalExpr]
    exact ((evalExpr_keeps hinvoke receiver).bind fun _ => (evalExpr_keeps hinvoke value).bind fun _ =>
      Member.set_keeps ..).placed _

theorem evalExprs_keeps (hinvoke : ∀ f bindings, Keeps names (invoke f bindings)) (es : List Expr) :
    Keeps names (evalExprs types invoke es) := by
  cases es with
  | nil =>
    rw [evalExprs]
    exact keeps_pure _
  | cons e es =>
    rw [evalExprs]
    exact (evalExpr_keeps hinvoke e).bind fun _ => (evalExprs_keeps hinvoke es).bind fun _ => keeps_pure _

end

theorem declare_keeps (make : Closure → Value) {declaration : FunctionDecl}
    (h : declaration.name.name ∈ names) : Keeps names (declare make declaration) :=
  (keeps_close _).bind fun _ => (keeps_define h _).bind fun _ => keeps_pure _

/-- What a conditional makes of the value of its condition. -/
theorem condition_keeps {condition : Expr} {v : Value} {thenBranch elseBranch : EvalM Outcome}
    (hthen : Keeps names thenBranch) (helse : Keeps names elseBranch) :
    Keeps names (match v with
      | .bool true => thenBranch
      | .bool false => elseBranch
      | v => placed condition.position (fail (.nonBooleanCondition v.typeName))) := by
  split
  · exact hthen
  · exact helse
  · exact (keeps_fail _).placed _

mutual

theorem execStmt_keeps (hinvoke : ∀ f bindings, Keeps [] (invoke f bindings)) (s : Stmt) :
    Keeps s.declares (execStmt types invoke s) := by
  have heval : ∀ {names} (e : Expr), Keeps names (evalExpr types invoke e) := fun e =>
    (evalExpr_keeps hinvoke e).mono (by simp)
  cases s with
  | expr e =>
    rw [execStmt]
    exact (heval e).bind fun _ => keeps_pure _
  | define name value =>
    rw [execStmt]
    exact (heval value).bind fun _ => (keeps_define List.mem_cons_self _).bind fun _ => keeps_pure _
  | print e =>
    rw [execStmt]
    exact (heval e).bind fun _ => (keeps_print _).bind fun _ => keeps_pure _
  | ifThen condition thenBranch =>
    rw [execStmt]
    exact (heval condition).bind fun _ => condition_keeps (execStmt_keeps hinvoke thenBranch) (keeps_pure _)
  | ifElse condition thenBranch elseBranch =>
    rw [execStmt]
    exact (heval condition).bind fun _ => condition_keeps
      ((execStmt_keeps hinvoke thenBranch).mono fun _ h => List.mem_append_left _ h)
      ((execStmt_keeps hinvoke elseBranch).mono fun _ h => List.mem_append_right _ h)
  | block body =>
    rw [execStmt]
    exact .of_branches fun m => ⟨_, (execBody_keeps hinvoke .null body).within m.current [], rfl⟩
  | function name parameters body =>
    rw [execStmt]
    exact declare_keeps _ List.mem_cons_self
  | mapper name parameters body =>
    rw [execStmt]
    exact declare_keeps _ List.mem_cons_self
  | ret value p =>
    cases value with
    | none =>
      rw [execStmt]
      exact keeps_pure _
    | some value =>
      rw [execStmt]
      exact (heval value).bind fun _ => keeps_pure _
  | importType path localName =>
    rw [execStmt]
    split
    · exact (keeps_define List.mem_cons_self _).bind fun _ => keeps_pure _
    · exact (keeps_fail _).placed _

theorem execBody_keeps (hinvoke : ∀ f bindings, Keeps [] (invoke f bindings)) (last : Value) (ss : List Stmt) :
    Keeps (ss.flatMap Stmt.declares) (execBody types invoke last ss) := by
  cases ss with
  | nil =>
    rw [execBody]
    exact keeps_pure _
  | cons s ss =>
    rw [execBody]
    refine ((execStmt_keeps hinvoke s).mono fun _ h => List.mem_append_left _ h).bind fun outcome => ?_
    cases outcome with
    | done v => exact (execBody_keeps hinvoke v ss).mono fun _ h => List.mem_append_right _ h
    | returned v => exact keeps_pure _

end

/-! ## Calls -/

/-- A call declares nothing in the scope that it is made in. -/
theorem callWithin_keeps (limit room : Nat) (f : Closure) (bindings : List (String × Value)) :
    Keeps [] (callWithin types limit room f bindings) := by
  induction room generalizing f bindings with
  | zero =>
    refine (keeps_isLive _).bind fun live => ?_
    split <;> exact keeps_fail _
  | succ room ih =>
    refine (keeps_isLive _).bind fun live => ?_
    split
    · refine keeps_callDepth.bind fun depth => ?_
      split
      · exact keeps_fail _
      · exact ((execBody_keeps ih _ _).within _ _).called.bind fun _ => keeps_pure _
    · exact keeps_fail _

end

/-! ## Statements of templates -/

namespace Stmt

/-- The name that a statement itself declares. -/
def declared : Stmt → List String
  | define name _ | function name .. | mapper name .. | importType _ name => [name.name]
  | _ => []

mutual

/-- A statement and all statements in it. -/
def parts : Stmt → List Stmt
  | ifThen condition thenBranch => ifThen condition thenBranch :: thenBranch.parts
  | ifElse condition thenBranch elseBranch =>
    ifElse condition thenBranch elseBranch :: thenBranch.parts ++ elseBranch.parts
  | block body => block body :: partsOfAll body
  | function name parameters body => function name parameters body :: partsOfAll body
  | mapper name parameters body => mapper name parameters body :: partsOfAll body
  | s => [s]

/-- Statements and all statements in them. -/
def partsOfAll : List Stmt → List Stmt
  | [] => []
  | s :: ss => s.parts ++ partsOfAll ss

end

mutual

theorem shaped_of_mem_parts {s t : Stmt} (h : s.Shaped) (ht : t ∈ s.parts) : t.Shaped := by
  match s with
  | expr _ | define .. | print _ | ret .. | importType .. =>
    simp only [parts, List.mem_singleton] at ht
    exact ht ▸ h
  | ifThen condition thenBranch =>
    simp only [parts, List.mem_cons] at ht
    rcases ht with rfl | ht
    · exact h
    · simp only [Shaped] at h
      exact shaped_of_mem_parts h.2 ht
  | ifElse condition thenBranch elseBranch =>
    simp only [parts, List.cons_append, List.mem_cons, List.mem_append] at ht
    rcases ht with rfl | ht | ht
    · exact h
    · simp only [Shaped] at h
      exact shaped_of_mem_parts h.1.2.2 ht
    · simp only [Shaped] at h
      exact shaped_of_mem_parts h.2.2 ht
  | block body | function _ _ body | mapper _ _ body =>
    simp only [parts, List.mem_cons] at ht
    rcases ht with rfl | ht
    · exact h
    · simp only [Shaped] at h
      exact shaped_of_mem_partsOfAll h ht

theorem shaped_of_mem_partsOfAll {ss : List Stmt} {t : Stmt} (h : AllShaped ss) (ht : t ∈ partsOfAll ss) :
    t.Shaped := by
  match ss with
  | [] => cases ht
  | s :: ss =>
    simp only [AllShaped] at h
    simp only [partsOfAll, List.mem_append] at ht
    rcases ht with ht | ht
    · exact shaped_of_mem_parts h.1.2 ht
    · exact shaped_of_mem_partsOfAll h.2 ht

end

theorem declares_of_isPlain : ∀ {s : Stmt}, s.Shaped → s.isPlain = true → s.declares = []
  | expr _, _, _ | print _, _, _ | block _, _, _ | ret .., _, _ => by simp only [declares]
  | ifThen _ thenBranch, h, _ => by
    simp only [Shaped] at h
    simp only [declares, declares_of_isPlain h.2 h.1]
  | ifElse _ thenBranch elseBranch, h, _ => by
    simp only [Shaped] at h
    simp only [declares, declares_of_isPlain h.1.2.2 h.1.1, declares_of_isPlain h.2.2 h.2.1, List.append_nil]

/-- The same at top level, where mappers and imports may stand too. -/
theorem shaped_of_mem_program {p : Program} {t : Stmt} (h : ∀ s ∈ p, s.Shaped) (ht : t ∈ partsOfAll p) : t.Shaped := by
  induction p with
  | nil => cases ht
  | cons s p ih =>
    simp only [partsOfAll, List.mem_append] at ht
    rcases ht with ht | ht
    · exact shaped_of_mem_parts (h s List.mem_cons_self) ht
    · exact ih (fun u hu => h u (List.mem_cons_of_mem _ hu)) ht

/-- In a template no conditional declares a name, so a statement declares only its own. -/
theorem declares_eq_declared {s : Stmt} (h : s.Shaped) : s.declares = s.declared := by
  cases s with
  | define | function | mapper | importType => simp only [declares, declared]
  | _ => exact declares_of_isPlain h rfl

end Stmt

/-! ## States of an interpreter -/

/-- The states that an interpreter comes to, with the scopes that will be current again, the innermost first. Parts of
an evaluation are among the steps, so the states in the midst of one are among these states. -/
inductive Machine.Reached (types : Registry) (limit : Nat) : List ScopeId → Machine → Prop
  | fresh (heap : Heap) (output : Output) (declarations : Nat) :
    Reached types limit [] ((Interpreter.fresh types limit heap output).numberedFrom declarations).machine
  | evaluate {stack m} (room : Nat) (e : Expr) (h : Reached types limit stack m) :
    Reached types limit stack ((evalExpr types (callWithin types limit room) e).after m)
  | execute {stack m} (room : Nat) (s : Stmt) (h : Reached types limit stack m) :
    Reached types limit stack ((execStmt types (callWithin types limit room) s).after m)
  | call {stack m} (room : Nat) (callee : Value) (arguments : List Value) (h : Reached types limit stack m) :
    Reached types limit stack ((callValue types (callWithin types limit room) callee arguments).after m)
  | mapRow {stack m} (mapper : Value) (row : Row) (h : Reached types limit stack m) :
    Reached types limit stack ((⟨types, limit, m⟩ : Interpreter).mapRow mapper row).2.machine
  | define {stack m} (name : String) (v : Value) (h : Reached types limit stack m) :
    Reached types limit stack ((EvalM.define name v).after m)
  /-- The surrounding program changes its objects and what has been printed, or runs templates elsewhere. -/
  | surroundings {stack m} (heap : Heap) (output : Output) (declarations : Nat) (h : Reached types limit stack m) :
    Reached types limit stack { m with heap, output, declarations }
  | enter {stack m} (parent : ScopeId) (bindings : List (String × Value)) (h : Reached types limit stack m) :
    Reached types limit (m.current :: stack) (m.enter parent bindings)
  | leave {previous stack m} (h : Reached types limit (previous :: stack) m) :
    Reached types limit stack (m.leave previous)
  | begin {stack m} (h : Reached types limit stack m) :
    Reached types limit stack { m with callDepth := m.callDepth + 1 }
  | finish {stack m} (h : Reached types limit stack m) :
    Reached types limit stack { m with callDepth := m.callDepth - 1 }

/-- The live scopes are the current one and those that will be current again. -/
abbrev Machine.Stacked (stack : List ScopeId) (m : Machine) : Prop := m.scopes.Stack (m.current :: stack)

namespace Machine

variable {types : Registry} {limit : Nat} {stack : List ScopeId} {m m' : Machine} {names : List String}

theorem Stacked.of_frame (h : m.Stacked stack) (hc : m'.scopes.Consistent) (hf : m.Frame names m') :
    m'.Stacked stack := by
  rw [Stacked, hf.current]
  exact h.of_live hc hf.isLive

theorem Stacked.after {α : Type} {x : EvalM α} (h : m.Stacked stack) (hx : Keeps names x) :
    (x.after m).Stacked stack :=
  h.of_frame (hx.spec m h.consistent).1 (hx.spec m h.consistent).2

theorem Stacked.enter (h : m.Stacked stack) (parent : ScopeId) (bindings : List (String × Value)) :
    (m.enter parent bindings).Stacked (m.current :: stack) := enter_stack h parent bindings

theorem Stacked.leave {previous : ScopeId} (h : m.Stacked (previous :: stack)) :
    (m.leave previous).Stacked stack := h.release (List.cons_ne_nil _ _)

end Machine

/-- An operation of an interpreter ends in the state in which its computation does. -/
theorem Interpreter.machine_run {α : Type} (i : Interpreter) (x : EvalM α) :
    (i.run x).2.machine = x.after i.machine := by
  unfold run EvalM.after
  cases x i.machine <;> rfl

theorem Interpreter.types_run {α : Type} (i : Interpreter) (x : EvalM α) : (i.run x).2.types = i.types := by
  unfold run
  cases x i.machine <;> rfl

theorem Interpreter.callLimit_run {α : Type} (i : Interpreter) (x : EvalM α) :
    (i.run x).2.callLimit = i.callLimit := by
  unfold run
  cases x i.machine <;> rfl

theorem Interpreter.types_defineAll (i : Interpreter) (seeds : List (String × Value)) :
    (i.defineAll seeds).types = i.types := by
  induction seeds generalizing i with
  | nil => rfl
  | cons x seeds ih => exact (ih (i.define x.1 x.2)).trans (i.types_run _)

theorem Interpreter.execute_after (i : Interpreter) (p : Program) :
    ∃ x : EvalM Value, Keeps (p.flatMap Stmt.declares) x ∧ (i.execute p).2.machine = x.after i.machine := by
  refine ⟨_, ?_, i.machine_run _⟩
  exact (execBody_keeps (callWithin_keeps _ _) .null p).bind fun _ => keeps_pure _

/-- Applying a mapper is a call. -/
theorem Interpreter.mapRow_after (i : Interpreter) (mapper : Value) (row : Row) :
    ∃ x : EvalM Value, Keeps [] x ∧ (i.mapRow mapper row).2.machine = x.after i.machine := by
  refine ⟨_, ?_, i.machine_run _⟩
  split
  · split
    · exact callWithin_keeps ..
    · exact keeps_throw _
  · exact keeps_fail _
  · exact keeps_fail _

theorem Machine.Reached.stacked {types : Registry} {limit : Nat} {stack : List ScopeId} {m : Machine}
    (h : Reached types limit stack m) : m.Stacked stack := by
  induction h with
  | fresh heap output declarations => exact ScopeStore.Stack.initial
  | evaluate room e _ ih => exact ih.after (evalExpr_keeps (callWithin_keeps limit room) e)
  | execute room s _ ih => exact ih.after (execStmt_keeps (callWithin_keeps limit room) s)
  | call room callee arguments _ ih => exact ih.after (callValue_keeps (callWithin_keeps limit room) callee arguments)
  | mapRow mapper row _ ih =>
    obtain ⟨x, hx, he⟩ := Interpreter.mapRow_after ⟨_, _, _⟩ mapper row
    rw [he]
    exact ih.after hx
  | @define _ m name v _ ih =>
    have hx : Keeps [name] (EvalM.define name v) := keeps_define List.mem_cons_self v
    exact ih.after hx
  | enter parent bindings _ ih => exact ih.enter parent bindings
  | leave _ ih => exact ih.leave
  | surroundings heap output declarations _ ih => exact ih
  | begin _ ih => exact ih
  | finish _ ih => exact ih

/-- Where the global scope is current, it is the only live scope. -/
theorem Machine.Stacked.liveCount {stack : List ScopeId} {m : Machine} (h : m.Stacked stack)
    (hg : m.current = ScopeStore.global) : m.scopes.liveCount = 1 := by
  have hstack : stack = [] := by
    cases stack with
    | nil => rfl
    | cons id stack =>
      have hlast := h.getLast
      rw [List.getLast?_cons_cons] at hlast
      exact absurd (hg ▸ List.mem_of_getLast? hlast) (List.nodup_cons.1 h.nodup).1
  subst hstack
  exact ScopeStore.liveCount_eq_length h.live_iff h.nodup

/-- In every state that an interpreter comes to, an expression, a statement of a template, a call and an application of
a mapper keep the frame however they end, but that a statement may bind the name that it declares in the current scope.
Where the global scope is current, it is the only live scope after a template or a mapper has run, well or not. -/
theorem evaluation_keeps_frame (i : Interpreter) (stack : List ScopeId)
    (h : Machine.Reached i.types i.callLimit stack i.machine) :
    (∀ (room : Nat) (e : Expr),
      i.machine.Frame [] ((evalExpr i.types (callWithin i.types i.callLimit room) e).after i.machine)) ∧
    (∀ (tokens : List Token) (p : Program), parse tokens = .ok p → ∀ s ∈ Stmt.partsOfAll p, ∀ room : Nat,
      i.machine.Frame s.declared ((execStmt i.types (callWithin i.types i.callLimit room) s).after i.machine)) ∧
    (∀ (room : Nat) (callee : Value) (arguments : List Value), i.machine.Frame []
      ((callValue i.types (callWithin i.types i.callLimit room) callee arguments).after i.machine)) ∧
    (∀ (mapper : Value) (row : Row), i.machine.Frame [] (i.mapRow mapper row).2.machine) ∧
    (i.machine.current = ScopeStore.global → (∀ p : Program, (i.execute p).2.liveScopes = 1) ∧
      ∀ (mapper : Value) (row : Row), (i.mapRow mapper row).2.liveScopes = 1) := by
  have hs := h.stacked
  have hinvoke : ∀ room f bindings, Keeps [] (callWithin i.types i.callLimit room f bindings) :=
    callWithin_keeps i.callLimit
  refine ⟨fun room e => ?_, fun tokens p hp s hmem room => ?_, fun room callee arguments => ?_,
    fun mapper row => ?_, fun hg => ⟨fun p => ?_, fun mapper row => ?_⟩⟩
  · exact ((evalExpr_keeps (hinvoke room) e).spec _ hs.consistent).2
  · have hshaped : s.Shaped := Stmt.shaped_of_mem_program (parse_shaped hp) hmem
    rw [← Stmt.declares_eq_declared hshaped]
    exact ((execStmt_keeps (hinvoke room) s).spec _ hs.consistent).2
  · exact ((callValue_keeps (hinvoke room) callee arguments).spec _ hs.consistent).2
  · obtain ⟨x, hx, he⟩ := i.mapRow_after mapper row
    rw [he]
    exact (hx.spec _ hs.consistent).2
  · obtain ⟨x, hx, he⟩ := i.execute_after p
    rw [Interpreter.liveScopes, he]
    exact (hs.after hx).liveCount ((hx.spec _ hs.consistent).2.current.trans hg)
  · obtain ⟨x, hx, he⟩ := i.mapRow_after mapper row
    rw [Interpreter.liveScopes, he]
    exact (hs.after hx).liveCount ((hx.spec _ hs.consistent).2.current.trans hg)

/-- In a scope of a fresh interpreter `var x` binds one name there, and after a template one scope is live. -/
theorem fresh_keeps_frame :
    let i := Interpreter.fresh .empty 8 .empty .silent
    let inner := i.enter ScopeStore.global []
    let s : Stmt := .define ⟨"x", .nowhere⟩ (.literal .null .nowhere)
    inner.machine.Frame ["x"] ((execStmt inner.types inner.invoke s).after inner.machine) ∧
      ∀ p : Program, (i.execute p).2.liveScopes = 1 := by
  intro i inner s
  have hi : Machine.Reached i.types i.callLimit [] i.machine := .fresh .empty .silent 0
  have hinner : Machine.Reached inner.types inner.callLimit [ScopeStore.global] inner.machine :=
    .enter ScopeStore.global [] hi
  have hparse : parse [⟨.varWord, .empty, .nowhere⟩, ⟨.identifier, .text "x", .nowhere⟩] = .ok [s] := by cbv
  obtain ⟨-, hstmt, -⟩ := evaluation_keeps_frame inner [ScopeStore.global] hinner
  obtain ⟨-, -, -, -, hglobal⟩ := evaluation_keeps_frame i [] hi
  exact ⟨hstmt _ _ hparse s (by simp [Stmt.partsOfAll, Stmt.parts, s]) 8, (hglobal rfl).1⟩

end QueryTemplate
