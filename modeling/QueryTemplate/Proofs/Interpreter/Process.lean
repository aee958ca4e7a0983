import Mathlib.Logic.Relation
import QueryTemplate.Proofs.Interpreter.Discipline
import QueryTemplate.Proofs.Interpreter.Plan

/-!
# Evaluation step by step

A process is an evaluation in progress: the plan that is carried out now or what has come out of it, what is to be done
afterwards (`Frame`), and the state. The blocks and calls in progress are frames. A process goes on in single steps
(`Process.Step`), with no bound on their number; only a call asks for the limit on the depth of calls.

Every process comes to an end, and what comes out is what running the plan comes to (`Plan.completes`). This is by
induction on the room for calls that the limit leaves, and for each room on the plan. It rests on the depth of calls,
which is again what it was when a part of the plan has been carried out, well or not.
-/

namespace QueryTemplate

open Relation EvalM

/-- A block or call in progress. -/
structure Activation where
  /-- The number of scopes that had been opened before its own. -/
  number : Nat
  /-- Its scope. -/
  scope : ScopeId
  /-- The scope that is current again afterwards. -/
  previous : ScopeId

/-- What is to be done when something has been carried out. -/
inductive Frame
  | next (next : Outcome → Plan)
  | placed (p : Position)
  | block (a : Activation)
  | call (a : Activation)

/-- The block or call that the frame ends. -/
def Frame.activation? : Frame → Option Activation
  | block a | call a => some a
  | next _ | placed _ => none

/-- What a process is about. -/
inductive Focus
  | doing (x : Plan)
  | ended (r : Except EvalError Outcome)

/-- An evaluation in progress. -/
structure Process where
  focus : Focus
  /-- What is to be done afterwards, the next first. -/
  frames : List Frame
  machine : Machine

/-- The block or call whose scope would be opened next. -/
def Machine.activation (m : Machine) (parent : ScopeId) (bindings : List (String × Value)) : Activation :=
  ⟨m.scopes.opened, (m.enter parent bindings).current, m.current⟩

/-- A call has begun. -/
def Machine.begin (m : Machine) : Machine := { m with callDepth := m.callDepth + 1 }

/-- A call has ended. -/
def Machine.finish (m : Machine) : Machine := { m with callDepth := m.callDepth - 1 }

namespace Process

/-- The blocks and calls in progress, the innermost first. -/
def activations (c : Process) : List Activation := c.frames.filterMap Frame.activation?

/-- A plan that is about to be carried out. -/
def start (x : Plan) (m : Machine) : Process := ⟨.doing x, [], m⟩

/-- What has come out of carrying out a plan. -/
def ofResult (frames : List Frame) : EStateM.Result EvalError Machine Outcome → Process
  | .ok o m => ⟨.ended (.ok o), frames, m⟩
  | .error e m => ⟨.ended (.error e), frames, m⟩

/-- One step of a process. -/
inductive Step (types : Registry) (limit : Nat) : Process → Process → Prop
  | done {o fs m} : Step types limit ⟨.doing (.done o), fs, m⟩ ⟨.ended (.ok o), fs, m⟩
  | act {a fs m} : Step types limit ⟨.doing (.act a), fs, m⟩ (ofResult fs ((a.run types).outcome m))
  | seq {x next fs m} : Step types limit ⟨.doing (.seq x next), fs, m⟩ ⟨.doing x, .next next :: fs, m⟩
  | placed {p x fs m} : Step types limit ⟨.doing (.placed p x), fs, m⟩ ⟨.doing x, .placed p :: fs, m⟩
  | block {x fs m} : Step types limit ⟨.doing (.block x), fs, m⟩
      ⟨.doing x, .block (m.activation m.current []) :: fs, m.enter m.current []⟩
  /-- The scope in which the closure was made is no longer live. -/
  | expired {f bindings fs m} (h : m.scopes.isLive f.scope = false) :
    Step types limit ⟨.doing (.call f bindings), fs, m⟩ ⟨.ended (.error (.ofFault (.scopeExpired f.name))), fs, m⟩
  | tooDeep {f bindings fs m} (h : m.scopes.isLive f.scope = true) (hd : limit ≤ m.callDepth) :
    Step types limit ⟨.doing (.call f bindings), fs, m⟩ ⟨.ended (.error (.ofFault (.callDepthExceeded limit))), fs, m⟩
  | call {f bindings fs m} (h : m.scopes.isLive f.scope = true) (hd : m.callDepth < limit) :
    Step types limit ⟨.doing (.call f bindings), fs, m⟩
      ⟨.doing f.plan, .call (m.begin.activation f.scope bindings) :: fs, m.begin.enter f.scope bindings⟩
  | goOn {o next fs m} : Step types limit ⟨.ended (.ok o), .next next :: fs, m⟩ ⟨.doing (next o), fs, m⟩
  | giveUp {e next fs m} : Step types limit ⟨.ended (.error e), .next next :: fs, m⟩ ⟨.ended (.error e), fs, m⟩
  | place {r p fs m} : Step types limit ⟨.ended r, .placed p :: fs, m⟩ ⟨.ended (r.mapError (·.placed p)), fs, m⟩
  | leaveBlock {r a fs m} : Step types limit ⟨.ended r, .block a :: fs, m⟩ ⟨.ended r, fs, m.leave a.previous⟩
  | leaveCall {r a fs m} : Step types limit ⟨.ended r, .call a :: fs, m⟩
      ⟨.ended (r.map fun o => .done o.value), fs, (m.leave a.previous).finish⟩

/-- Any number of steps. -/
abbrev Steps (types : Registry) (limit : Nat) : Process → Process → Prop := ReflTransGen (Step types limit)

section

variable {types : Registry} {limit : Nat} {c d d' : Process}

theorem Step.unique (h : Step types limit c d) (h' : Step types limit c d') : d = d' := by
  cases h with
  | expired h =>
    cases h' with
    | expired => rfl
    | tooDeep h₁ | call h₁ => rw [h] at h₁; cases h₁
  | tooDeep h hd =>
    cases h' with
    | expired h₁ => rw [h] at h₁; cases h₁
    | tooDeep => rfl
    | call _ hd₁ => exact absurd hd₁ (Nat.not_lt.2 hd)
  | call h hd =>
    cases h' with
    | expired h₁ => rw [h] at h₁; cases h₁
    | tooDeep _ hd₁ => exact absurd hd (Nat.not_lt.2 hd₁)
    | call => rfl
  | _ =>
    cases h'
    rfl

/-- A process with nothing left to do is at its end. -/
theorem not_step_of_ended {r : Except EvalError Outcome} {m : Machine} : ¬Step types limit ⟨.ended r, [], m⟩ d := nofun

/-- A process at its end is where the steps lead, on any way. -/
theorem Steps.unique {r r' : Except EvalError Outcome} {m m' : Machine} (h : Steps types limit c ⟨.ended r, [], m⟩)
    (h' : Steps types limit c ⟨.ended r', [], m'⟩) : r = r' ∧ m = m' := by
  induction h using ReflTransGen.head_induction_on with
  | refl =>
    rcases h'.cases_head with he | ⟨_, hs, -⟩
    · cases he
      exact ⟨rfl, rfl⟩
    · exact absurd hs not_step_of_ended
  | head hs _ ih =>
    rcases h'.cases_head with rfl | ⟨_, hs', h'⟩
    · exact absurd hs not_step_of_ended
    · exact ih (hs.unique hs' ▸ h')

/-- No sequence of steps goes on for ever from a process that can come to its end. -/
theorem Steps.acc {r : Except EvalError Outcome} {m : Machine} (h : Steps types limit c ⟨.ended r, [], m⟩) :
    Acc (fun d c => Step types limit c d) c := by
  induction h using ReflTransGen.head_induction_on with
  | refl => exact ⟨_, fun d hs => absurd hs not_step_of_ended⟩
  | head hs _ ih => exact ⟨_, fun d hs' => hs.unique hs' ▸ ih⟩

end

end Process

/-! ## The end of a process -/

/-- What an action does to the scopes: at most it binds a name in the current scope, or gives a bound one a value. -/
inductive ScopeStore.Rebound (st : ScopeStore Value) (current : ScopeId) : ScopeStore Value → Prop
  | same : Rebound st current st
  | defined (name : String) (v : Value) : Rebound st current (st.define current name v)
  | assigned {name : String} {v : Value} {st' : ScopeStore Value} (h : st.assign? current name v = some st') :
    Rebound st current st'

/-- What an action leaves as it was. -/
structure Machine.Acted (m m' : Machine) : Prop where
  current : m'.current = m.current
  callDepth : m'.callDepth = m.callDepth
  scopes : m.scopes.Rebound m.current m'.scopes

theorem EvalM.Worked.acted {x : EvalM Value} {m : Machine} (h : Worked m (x m)) : m.Acted (x.after m) := by
  obtain ⟨heap, hm⟩ := h.after
  rw [hm]
  exact ⟨rfl, rfl, .same⟩

theorem Action.run_acted (types : Registry) (a : Action) (m : Machine) : m.Acted ((a.run types).after m) := by
  cases a with
  | yield r => cases r <;> exact ⟨rfl, rfl, .same⟩
  | lookup name =>
    simp only [run, after, EvalM.lookup]
    cases m.scopes.lookup m.current name <;> exact ⟨rfl, rfl, .same⟩
  | assign name v =>
    cases h : m.scopes.assign? m.current name v with
    | none =>
      rw [run, after_bind_error (by rw [EvalM.assign, h])]
      exact ⟨rfl, rfl, .same⟩
    | some st =>
      rw [run, after_bind_ok (by rw [EvalM.assign, h])]
      exact ⟨rfl, rfl, .assigned h⟩
  | define name v => exact ⟨rfl, rfl, .defined name v⟩
  | print v => exact ⟨rfl, rfl, .same⟩
  | function d => exact ⟨rfl, rfl, .defined d.name.name _⟩
  | mapper d => exact ⟨rfl, rfl, .defined d.name.name _⟩
  | importType path localName =>
    rw [run]
    split
    · exact ⟨rfl, rfl, .defined localName _⟩
    · exact ⟨rfl, rfl, .same⟩
  | construct t arguments => exact (Member.construct_worked ..).acted
  | callMember receiver name arguments => exact (Member.call_worked ..).acted
  | getMember receiver field => exact (Member.get_worked ..).acted
  | setMember receiver field v => exact (Member.set_worked ..).acted

open Process

section

variable {types : Registry} {limit : Nat} {fs : List Frame} {m : Machine}

theorem step_place (p : Position) (x : EvalM Outcome) :
    Step types limit (ofResult (.placed p :: fs) (x m)) (ofResult fs (placed p x m)) := by
  unfold placed
  cases x m <;> exact .place

theorem step_leaveBlock (parent : ScopeId) (bindings : List (String × Value)) (x : EvalM Outcome) :
    Step types limit (ofResult (.block (m.activation parent bindings) :: fs) (x (m.enter parent bindings)))
      (ofResult fs (within parent bindings x m)) := by
  unfold within
  cases x (m.enter parent bindings) <;> exact .leaveBlock

theorem step_leaveCall (parent : ScopeId) (bindings : List (String × Value)) (x : EvalM Outcome) :
    Step types limit (ofResult (.call (m.begin.activation parent bindings) :: fs) (x (m.begin.enter parent bindings)))
      (ofResult fs ((do return .done (← called (within parent bindings x)).value : EvalM Outcome) m)) := by
  have hbegin : { m with callDepth := m.callDepth + 1 } = m.begin := rfl
  simp only [bind, EStateM.bind, called, within, hbegin]
  cases x (m.begin.enter parent bindings) <;> exact .leaveCall

/-- A call comes to an error at once if the scope of the closure is not live. -/
theorem run_call_expired {f : Closure} {bindings : List (String × Value)} (room : Nat)
    (h : m.scopes.isLive f.scope = false) :
    callWithin types limit room f bindings m = .error (.ofFault (.scopeExpired f.name)) m := by
  cases room <;> simp only [callWithin, bind, EStateM.bind, EvalM.isLive, h] <;> rfl

/-- So does one that is too deep. -/
theorem run_call_tooDeep {f : Closure} {bindings : List (String × Value)} (room : Nat)
    (h : m.scopes.isLive f.scope = true) (hd : limit ≤ m.callDepth) :
    callWithin types limit room f bindings m = .error (.ofFault (.callDepthExceeded limit)) m := by
  cases room with
  | zero =>
    simp only [callWithin, bind, EStateM.bind, EvalM.isLive, h]
    rfl
  | succ room =>
    simp only [callWithin, bind, EStateM.bind, EvalM.isLive, h, if_true, EvalM.callDepth, if_pos hd]
    rfl

/-- Any other call runs the plan of the closure. -/
theorem run_call {f : Closure} {bindings : List (String × Value)} {room : Nat}
    (h : m.scopes.isLive f.scope = true) (hd : m.callDepth < limit) :
    callWithin types limit (room + 1) f bindings m =
      (do return (← called (within f.scope bindings (f.plan.run types (callWithin types limit room)))).value) m := by
  rw [Closure.plan, run_stmtPlans]
  simp only [callWithin, bind, EStateM.bind, EvalM.isLive, h, if_true, EvalM.callDepth, if_neg (Nat.not_le.2 hd)]

/-- Carrying out a plan comes to what running it does, and leaves the depth of calls as it was. There is room enough for
calls if there is as much as the limit leaves. -/
structure Plan.Completes (types : Registry) (limit room : Nat) (x : Plan) (fs : List Frame) (m : Machine) : Prop where
  steps : Steps types limit ⟨.doing x, fs, m⟩ (ofResult fs (x.run types (callWithin types limit room) m))
  callDepth : ((x.run types (callWithin types limit room)).after m).callDepth = m.callDepth

theorem Plan.completes_of_calls {room : Nat} (hcalls : ∀ f bindings fs m, limit ≤ room + Machine.callDepth m →
    (Plan.call f bindings).Completes types limit room fs m) (x : Plan) (fs : List Frame) (m : Machine)
    (hroom : limit ≤ room + m.callDepth) : x.Completes types limit room fs m := by
  induction x generalizing fs m with
  | done o => exact ⟨.single .done, rfl⟩
  | act a =>
    refine ⟨.single .act, ?_⟩
    rw [Plan.run, ← (a.run_acted types m).callDepth]
    cases h : a.run types m with
    | ok v m' => rw [after_bind_ok h, after_ok h]; rfl
    | error e m' => rw [after_bind_error h, after_error h]
  | call f bindings => exact hcalls f bindings fs m hroom
  | placed p x ih =>
    obtain ⟨hs, hd⟩ := ih (.placed p :: fs) m hroom
    exact ⟨(hs.head .placed).tail (step_place p _), by rw [Plan.run, after_placed, hd]⟩
  | block x ih =>
    obtain ⟨hs, hd⟩ := ih (.block (m.activation m.current []) :: fs) (m.enter m.current []) hroom
    refine ⟨(hs.head .block).tail (step_leaveBlock m.current [] _), ?_⟩
    exact (congrArg Machine.callDepth (after_within m.current [] m)).trans hd
  | seq x next ihx ihnext =>
    obtain ⟨hs, hd⟩ := ihx (.next next :: fs) m hroom
    cases h : x.run types (callWithin types limit room) m with
    | ok o m' =>
      rw [h] at hs
      rw [after_ok h] at hd
      obtain ⟨hs', hd'⟩ := ihnext o fs m' (by rw [hd]; exact hroom)
      constructor
      · simp only [Plan.run, bind, EStateM.bind, h]
        exact ((hs.head .seq).tail .goOn).trans hs'
      · rw [Plan.run, after_bind_ok h, hd', hd]
    | error e m' =>
      rw [h] at hs
      rw [after_error h] at hd
      constructor
      · simp only [Plan.run, bind, EStateM.bind, h]
        exact (hs.head .seq).tail .giveUp
      · rw [Plan.run, after_bind_error h, hd]

/-- A call that ends at once. -/
theorem Plan.completes_of_error {room : Nat} {f : Closure} {bindings : List (String × Value)} {e : EvalError}
    (h : callWithin types limit room f bindings m = .error e m)
    (hs : Step types limit ⟨.doing (.call f bindings), fs, m⟩ ⟨.ended (.error e), fs, m⟩) :
    (Plan.call f bindings).Completes types limit room fs m := by
  have hrun : (Plan.call f bindings).run types (callWithin types limit room) m = .error e m := by
    simp only [Plan.run, bind, EStateM.bind, h]
  exact ⟨by rw [hrun]; exact .single hs, by rw [after_error hrun]⟩

theorem Plan.completes_call (room : Nat) (f : Closure) (bindings : List (String × Value)) (fs : List Frame)
    (m : Machine) (hroom : limit ≤ room + m.callDepth) : (Plan.call f bindings).Completes types limit room fs m := by
  induction room generalizing f bindings fs m with
  | zero =>
    cases hl : m.scopes.isLive f.scope with
    | false => exact completes_of_error (run_call_expired 0 hl) (.expired hl)
    | true =>
      have hd : limit ≤ m.callDepth := by omega
      exact completes_of_error (run_call_tooDeep 0 hl hd) (.tooDeep hl hd)
  | succ room ih =>
    cases hl : m.scopes.isLive f.scope with
    | false => exact completes_of_error (run_call_expired _ hl) (.expired hl)
    | true =>
      rcases Nat.lt_or_ge m.callDepth limit with hd | hd
      · have hroom' : limit ≤ room + (m.begin.enter f.scope bindings).callDepth := by
          show limit ≤ room + (m.callDepth + 1)
          omega
        obtain ⟨hs, hdepth⟩ := completes_of_calls ih f.plan
          (.call (m.begin.activation f.scope bindings) :: fs) (m.begin.enter f.scope bindings) hroom'
        have hrun : (Plan.call f bindings).run types (callWithin types limit (room + 1)) m =
            (do return .done (← called (within f.scope bindings
              (f.plan.run types (callWithin types limit room)))).value : EvalM Outcome) m := by
          simp only [Plan.run, bind, EStateM.bind, run_call hl hd]
          cases called (within f.scope bindings (f.plan.run types (callWithin types limit room))) m <;> rfl
        refine ⟨?_, ?_⟩
        · rw [hrun]
          exact (hs.head (.call hl hd)).tail (step_leaveCall f.scope bindings _)
        · have hafter : ((Plan.call f bindings).run types (callWithin types limit (room + 1))).after m =
              (called (within f.scope bindings (f.plan.run types (callWithin types limit room)))).after m := by
            rw [after, hrun, after]
            simp only [bind, EStateM.bind]
            cases called (within f.scope bindings (f.plan.run types (callWithin types limit room))) m <;> rfl
          rw [hafter, after_called, after_within]
          exact congrArg (· - 1) hdepth
      · exact completes_of_error (run_call_tooDeep _ hl hd) (.tooDeep hl hd)

/-- Carrying out a plan comes to what running it does. -/
theorem Plan.completes (x : Plan) {room : Nat} (fs : List Frame) (m : Machine) (hroom : limit ≤ room + m.callDepth) :
    x.Completes types limit room fs m :=
  completes_of_calls (fun f bindings fs m h => completes_call room f bindings fs m h) x fs m hroom

end

/-! ## Requests -/

/-- What an interpreter is asked to do. -/
inductive Request
  | execute (program : Program)
  | evaluate (e : Expr)
  | call (callee : Value) (arguments : List Value)
  | mapRow (mapper : Value) (row : Row)

/-- What answering a request does. -/
def Request.plan : Request → Plan
  | execute program => Stmt.plans .null program
  | evaluate e => e.plan
  | call callee arguments => callPlan callee arguments
  | mapRow mapper row =>
    match mapper with
    | .mapper f =>
      match Interpreter.keyBindings row f.declaration.parameters with
      | .ok keys => .call f (row.bindings ++ keys)
      | .error e => .placed e.position (.fail e.fault)
    | .function f => .fail (.mapperNotCallable f.name)
    | v => .fail (.notCallable v.typeName)

namespace Interpreter

/-- Answer a request. -/
def perform (i : Interpreter) : Request → Except EvalError Value × Interpreter
  | .execute program => i.execute program
  | .evaluate e => i.evaluate e
  | .call callee arguments => i.call callee arguments
  | .mapRow mapper row => i.mapRow mapper row

/-- Parameters are not bound if there is no column for one of them, which is reported there. -/
theorem keyBindings_error {row : Row} {parameters : List Ident} {e : EvalError}
    (h : keyBindings row parameters = .error e) : ∃ p ∈ parameters, e = ⟨.missingColumn p.name, p.position⟩ := by
  induction parameters with
  | nil => cases h
  | cons p ps ih =>
    rw [keyBindings] at h
    split at h
    · cases hk : keyBindings row ps with
      | error e' =>
        rw [hk] at h
        cases h
        obtain ⟨p', hp, he⟩ := ih hk
        exact ⟨p', List.mem_cons_of_mem _ hp, he⟩
      | ok keys =>
        rw [hk] at h
        cases h
    · cases h
      exact ⟨p, List.mem_cons_self, rfl⟩

theorem run_outcome (i : Interpreter) (x : EvalM Value) :
    i.run x = i.run do return (← x.outcome).value := by
  simp only [run, outcome, bind, EStateM.bind]
  cases x i.machine <;> rfl

/-- To answer a request is to run its plan. -/
theorem perform_eq (i : Interpreter) (q : Request) :
    i.perform q = i.run do return (← q.plan.run i.types i.invoke).value := by
  cases q with
  | execute program => rw [perform, execute, Request.plan, run_stmtPlans]
  | evaluate e => rw [perform, evaluate, Request.plan, run_exprPlan, ← run_outcome]
  | call callee arguments => rw [perform, call, Request.plan, run_callPlan, ← run_outcome]
  | mapRow mapper row =>
    cases mapper with
    | mapper f =>
      simp only [perform, mapRow, Request.plan]
      cases keyBindings row f.declaration.parameters with
      | ok keys => exact run_outcome i _
      | error e => rfl
    | _ => rfl

/-- The steps of answering a request come to its answer. -/
theorem perform_steps (i : Interpreter) (q : Request) : ∃ r : Except EvalError Outcome,
    Steps i.types i.callLimit (start q.plan i.machine) ⟨.ended r, [], (i.perform q).2.machine⟩ ∧
      (i.perform q).1 = r.map Outcome.value := by
  have hs := (q.plan.completes [] i.machine (Nat.le_add_right _ _) :
    q.plan.Completes i.types i.callLimit i.callLimit [] i.machine).steps
  rw [perform_eq]
  simp only [run, bind, EStateM.bind, invoke]
  cases h : q.plan.run i.types (callWithin i.types i.callLimit i.callLimit) i.machine with
  | ok o m =>
    rw [h] at hs
    exact ⟨_, hs, rfl⟩
  | error e m =>
    rw [h] at hs
    exact ⟨_, hs, rfl⟩

end Interpreter

end QueryTemplate
