import QueryTemplate.Proofs.Interpreter.Process

/-!
# The limit on calls

The limit on the depth of calls is asked for by a call that is about to begin, and by nothing else. So a step that it
does not stop is a step with any greater limit (`Process.Step.raise`). An evaluation that it does stop ends with that
error: what is left to do ends blocks and calls, and no error that has come out is taken back (`Process.Stopped.step`).
Hence an evaluation that ends otherwise is the same one with a greater limit, step by step.

The depth of calls is the number of calls in progress, and not greater than the limit (`Process.Counted`).
-/

namespace QueryTemplate

open EvalM

namespace Process

variable {types : Registry} {limit limit' : Nat} {c d : Process}

/-! ## Stopped evaluations -/

/-- The limit has stopped a call, and what is left to do is to end what is in progress. -/
def Stopped (limit : Nat) (c : Process) : Prop :=
  ∃ p, c.focus = .ended (.error ⟨.callDepthExceeded limit, p⟩)

theorem Stopped.step (h : c.Stopped limit) (hs : Step types limit' c d) : d.Stopped limit := by
  obtain ⟨p, hp⟩ := h
  cases hs with
  | giveUp => exact ⟨p, hp⟩
  | @place r q fs m =>
    cases hp
    refine ⟨if p.isSome then p else q, ?_⟩
    simp only [Except.mapError, EvalError.placed]
    split <;> rfl
  | leaveBlock => exact ⟨p, hp⟩
  | leaveCall =>
    cases hp
    exact ⟨p, rfl⟩
  | _ => cases hp

/-- A step that the limit does not stop is a step with a greater limit. -/
theorem Step.raise (h : Step types limit c d) (hl : limit ≤ limit') : Step types limit' c d ∨ d.Stopped limit := by
  cases h with
  | done => exact .inl .done
  | act => exact .inl .act
  | seq => exact .inl .seq
  | placed => exact .inl .placed
  | block => exact .inl .block
  | expired h => exact .inl (.expired h)
  | tooDeep => exact .inr ⟨.nowhere, rfl⟩
  | call h hd => exact .inl (.call h (Nat.lt_of_lt_of_le hd hl))
  | goOn => exact .inl .goOn
  | giveUp => exact .inl .giveUp
  | place => exact .inl .place
  | leaveBlock => exact .inl .leaveBlock
  | leaveCall => exact .inl .leaveCall

theorem Steps.raise (h : Steps types limit c d) (hl : limit ≤ limit') : Steps types limit' c d ∨ d.Stopped limit := by
  induction h with
  | refl => exact .inl .refl
  | tail _ hs ih =>
    rcases ih with ih | hstopped
    · exact (hs.raise hl).imp_left ih.tail
    · exact .inr (hstopped.step hs)

/-! ## Calls in progress -/

/-- The calls of functions and mappers in progress, the innermost first. -/
def calls (c : Process) : List Activation :=
  c.frames.filterMap fun
    | .call a => some a
    | _ => none

/-- The depth of calls is their number, and there are no more than the limit allows. -/
structure Counted (limit : Nat) (c : Process) : Prop where
  depth : c.machine.callDepth = c.calls.length
  bound : c.calls.length ≤ limit

theorem counted_start (x : Plan) {m : Machine} (h : m.callDepth = 0) : (start x m).Counted limit :=
  ⟨h, Nat.zero_le _⟩

theorem Counted.step (h : c.Counted limit) (hs : Step types limit c d) : d.Counted limit := by
  obtain ⟨hdepth, hbound⟩ := h
  cases hs with
  | @act a fs m =>
    have hd := (a.run_acted types m).callDepth
    simp only [outcome, bind, EStateM.bind]
    cases hr : a.run types m with
    | ok v m' =>
      rw [after_ok hr] at hd
      exact ⟨hd.trans hdepth, hbound⟩
    | error e m' =>
      rw [after_error hr] at hd
      exact ⟨hd.trans hdepth, hbound⟩
  | @call f bindings fs m hl hd => exact ⟨congrArg (· + 1) hdepth, (hdepth ▸ hd : _ < limit)⟩
  | leaveCall => exact ⟨congrArg (· - 1) hdepth, Nat.le_of_succ_le hbound⟩
  | _ => exact ⟨hdepth, hbound⟩

theorem Counted.steps (h : c.Counted limit) (hs : Steps types limit c d) : d.Counted limit := by
  induction hs with
  | refl => exact h
  | tail _ hs ih => exact ih.step hs

end Process

/-! ## Requests -/

namespace Interpreter

open Process

/-- The same interpreter with another limit on calls. -/
def withCallLimit (i : Interpreter) (limit : Nat) : Interpreter := { i with callLimit := limit }

/-- Answer requests one after another. -/
def performAll (i : Interpreter) (qs : List Request) : Interpreter := qs.foldl (fun i q => (i.perform q).2) i

/-- A request that the limit does not stop has the same answer with a greater limit, and leaves the same state. -/
theorem perform_withCallLimit (i : Interpreter) (q : Request) {limit : Nat} (hl : i.callLimit ≤ limit)
    (h : ∀ p, (i.perform q).1 ≠ .error ⟨.callDepthExceeded i.callLimit, p⟩) :
    ((i.withCallLimit limit).perform q).1 = (i.perform q).1 ∧
      ((i.withCallLimit limit).perform q).2.machine = (i.perform q).2.machine := by
  obtain ⟨r, hs, hr⟩ := i.perform_steps q
  obtain ⟨r', hs', hr'⟩ := (i.withCallLimit limit).perform_steps q
  rcases hs.raise hl with hs | ⟨p, hp⟩
  · obtain ⟨rfl, hm⟩ := hs'.unique hs
    exact ⟨hr'.trans hr.symm, hm⟩
  · cases hp
    exact absurd hr (h p)

theorem callDepth_perform {i : Interpreter} (h : i.machine.callDepth = 0) (q : Request) :
    (i.perform q).2.machine.callDepth = 0 := by
  obtain ⟨r, hs, -⟩ := i.perform_steps q
  exact ((counted_start q.plan h).steps hs).depth

theorem callDepth_performAll {i : Interpreter} (h : i.machine.callDepth = 0) (qs : List Request) :
    (i.performAll qs).machine.callDepth = 0 := by
  induction qs generalizing i with
  | nil => exact h
  | cons q qs ih => exact ih (callDepth_perform h q)

theorem callDepth_defineAll (i : Interpreter) (entries : List (String × Value)) :
    (i.defineAll entries).machine.callDepth = i.machine.callDepth := by
  induction entries generalizing i with
  | nil => rfl
  | cons e entries ih => exact ih (i.define e.1 e.2)

theorem defineAll_withCallLimit (i : Interpreter) (entries : List (String × Value)) (limit : Nat) :
    (i.withCallLimit limit).defineAll entries = (i.defineAll entries).withCallLimit limit := by
  induction entries generalizing i with
  | nil => rfl
  | cons e entries ih => exact ih (i.define e.1 e.2)

theorem callLimit_defineAll (i : Interpreter) (entries : List (String × Value)) :
    (i.defineAll entries).callLimit = i.callLimit := by
  induction entries generalizing i with
  | nil => rfl
  | cons e entries ih => exact ih (i.define e.1 e.2)

end Interpreter

open Process

/-- The limit on calls only cuts off what reaches it. Unless a template ends with the error of the limit, it comes to
the same with every greater limit: the same value, or the same error at the same place, and the same text is printed,
the same names are bound to the same values, and all else in the state is the same. With a limit there are never more
calls of functions and mappers in progress than it says, whatever has been asked for before, and the depth of calls is
their number. -/
theorem callLimit_only_cuts_off (types : Registry) (heap : Heap) (output : Output) (globals : List (String × Value))
    (program : Program) {limit limit' : Nat} (hl : limit ≤ limit') :
    let i (n : Nat) := (Interpreter.fresh types n heap output).defineAll globals
    ((∀ p, ((i limit).execute program).1 ≠ .error ⟨.callDepthExceeded limit, p⟩) →
      ((i limit').execute program).1 = ((i limit).execute program).1 ∧
      ((i limit').execute program).2.printed = ((i limit).execute program).2.printed ∧
      (∀ name, ((i limit').execute program).2.lookup name = ((i limit).execute program).2.lookup name) ∧
      ((i limit').execute program).2.machine = ((i limit).execute program).2.machine) ∧
    ∀ qs q c, Steps types limit (start (Request.plan q) ((i limit).performAll qs).machine) c →
      c.calls.length ≤ limit ∧ c.machine.callDepth = c.calls.length := by
  intro i
  have hdepth : (i limit).machine.callDepth = 0 := Interpreter.callDepth_defineAll ..
  refine ⟨fun h => ?_, fun qs q c hs => ?_⟩
  · have hlimit : (i limit).callLimit = limit := Interpreter.callLimit_defineAll ..
    have hraised : i limit' = (i limit).withCallLimit limit' :=
      Interpreter.defineAll_withCallLimit (.fresh types limit heap output) globals limit'
    obtain ⟨hresult, hmachine⟩ : ((i limit').execute program).1 = ((i limit).execute program).1 ∧
        ((i limit').execute program).2.machine = ((i limit).execute program).2.machine := by
      rw [hraised]
      exact (i limit).perform_withCallLimit (.execute program) (hlimit.symm ▸ hl) (hlimit.symm ▸ h)
    refine ⟨hresult, congrArg (·.output.text) hmachine, fun name => ?_, hmachine⟩
    simp only [Interpreter.lookup, Interpreter.run, hmachine]
    split <;> rfl
  · have hcounted := (counted_start q.plan (Interpreter.callDepth_performAll hdepth qs)).steps hs
    exact ⟨hcounted.bound, hcounted.depth⟩

/-- A function that calls another one: two calls are enough, and all limits from two on give the same. -/
theorem two_calls_same_from_two :
    let p : Program := [.function ⟨"f", .nowhere⟩ [] [.expr (.literal (.int 1) ⟨1, 12⟩)],
      .function ⟨"g", .nowhere⟩ [] [.expr (.call (.name ⟨"f", .nowhere⟩) [] ⟨2, 12⟩)],
      .print (.call (.name ⟨"g", .nowhere⟩) [] ⟨3, 8⟩)]
    let i (n : Nat) := Interpreter.fresh .empty n .empty (.buffer "")
    ((i 1).execute p).1.map (fun _ => ()) = .error ⟨.callDepthExceeded 1, ⟨2, 12⟩⟩ ∧
      ((i 2).execute p).2.printed = "1\n" ∧ ((i 1024).execute p).2.printed = ((i 2).execute p).2.printed := by
  intro p i
  obtain ⟨hsame, -⟩ := callLimit_only_cuts_off .empty .empty (.buffer "") [] p (by decide : 2 ≤ 1024)
  refine ⟨by decide +kernel, by decide +kernel, (hsame fun q h => ?_).2.1⟩
  have hok : ((i 2).execute p).1.isOk = true := by decide +kernel
  rw [show ((i 2).execute p).1 = _ from h] at hok
  cases hok

end QueryTemplate
