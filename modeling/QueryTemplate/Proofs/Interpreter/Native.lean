import QueryTemplate.Proofs.Interpreter.Isolation

/-!
# Where native code is entered

The bodies of constructors and methods belong to the surrounding program. To say with what they are run, a guard is put
in front of each of them (`Registry.guarded`): where a run of a body is not among those allowed, something else is done
in its place, whatever that may be. If the guards make no difference, then no other run is ever begun.

What an action may enter is read off the signatures (`Action.MayEnter`): the body of the first constructor or method, in
the order of declaration, that bears the name and takes the arguments, on the type that the receiver carries, and for a
field none if that type declares it. Guards that let just this pass make no difference to an action
(`Action.run_guarded`), hence none to a step, and none to all the steps of an evaluation
(`native_entered_by_signature`).
-/

namespace QueryTemplate

open Process Relation

/-! ## Signatures -/

/-- As many arguments as there are parameters, each of them null or accepted by its parameter. -/
def Fits (parameters : List ParameterType) (arguments : List Value) : Prop :=
  arguments.length = parameters.length ∧
    ∀ a ∈ parameters.zip arguments, a.2.isNull = true ∨ a.1.accepts a.2 = true

theorem takeAll_iff {ps : List ParameterType} {vs : List Value} : ParameterType.takeAll ps vs = true ↔ Fits ps vs := by
  induction ps generalizing vs with
  | nil => cases vs <;> simp [ParameterType.takeAll, Fits]
  | cons p ps ih =>
    cases vs with
    | nil => simp [ParameterType.takeAll, Fits]
    | cons v vs =>
      simp only [ParameterType.takeAll, ParameterType.takes, Bool.and_eq_true, Bool.or_eq_true, ih, Fits,
        List.length_cons, Nat.add_right_cancel_iff, List.zip_cons_cons, List.forall_mem_cons]
      exact and_left_comm

/-- An element has a property, and none before it does. -/
def IsFirst {α : Type} (l : List α) (P : α → Prop) (a : α) : Prop :=
  P a ∧ ∃ before after, l = before ++ a :: after ∧ ∀ b ∈ before, ¬P b

theorem isFirst_of_find? {α : Type} {l : List α} {p : α → Bool} {P : α → Prop} {a : α} (hp : ∀ b, p b = true ↔ P b)
    (h : l.find? p = some a) : IsFirst l P a := by
  obtain ⟨ha, before, after, hl, hbefore⟩ := List.find?_eq_some_iff_append.1 h
  refine ⟨(hp a).1 ha, before, after, hl, fun b hb hPb => ?_⟩
  have hnot := hbefore b hb
  rw [(hp b).2 hPb] at hnot
  cases hnot

namespace HostType

variable {t : HostType} {name : String} {receiver : Option ObjectRef} {arguments : List Value}

/-- The body is that of the first constructor that takes the arguments. -/
def Constructs (t : HostType) (arguments : List Value) (body : Nat) : Prop :=
  ∃ c, IsFirst t.constructors (fun c => Fits c.parameters arguments) c ∧ c.body = body

/-- The body is that of the first method of the name that takes the arguments, of the static ones without a receiver. -/
def Answers (t : HostType) (name : String) (receiver : Option ObjectRef) (arguments : List Value) (body : Nat) : Prop :=
  ∃ m, IsFirst t.methods
    (fun m => m.name = name ∧ (receiver = none → m.isStatic = true) ∧ Fits m.parameters arguments) m ∧ m.body = body

theorem constructs_of_constructor? {c : Constructor} (h : t.constructor? arguments = some c) :
    t.Constructs arguments c.body := ⟨c, isFirst_of_find? (fun _ => takeAll_iff) h, rfl⟩

theorem answers_of_method? {m : Method} (h : t.method? name arguments receiver.isNone = some m) :
    t.Answers name receiver arguments m.body := by
  refine ⟨m, isFirst_of_find? (fun m => ?_) h, rfl⟩
  cases receiver <;> simp [Method.answers, takeAll_iff, and_assoc]

end HostType

/-! ## Guards -/

/-- A run of a native body, and with what. -/
inductive NativeEntry
  | constructor (body : Nat) (type : HostType) (arguments : List Value)
  | method (body : Nat) (receiver : Option ObjectRef) (arguments : List Value)

section Guards

variable (allowed : NativeEntry → Prop) (react : HostM Value)

open Classical in
/-- The run of a body if it is allowed, and else the reaction. -/
noncomputable def NativeEntry.guard (e : NativeEntry) (body : HostM Value) : HostM Value :=
  if allowed e then body else react

/-- The same bodies with guards in front of all of them. -/
noncomputable def Bodies.guarded (bodies : Bodies) : Bodies where
  construct n t vs := (NativeEntry.constructor n t vs).guard allowed react (bodies.construct n t vs)
  call n o vs := (NativeEntry.method n o vs).guard allowed react (bodies.call n o vs)

/-- The same types with guards in front of all bodies. -/
noncomputable def Registry.guarded (types : Registry) : Registry :=
  { types with bodies := types.bodies.guarded allowed react }

end Guards

/-- What stands before the point carries the type whose methods are called: it is the type itself, or an object of it,
which is then the receiver. -/
inductive Value.Carries : Value → HostType → Option ObjectRef → Prop
  | type (t : HostType) : Carries (.type t) t none
  | object (o : ObjectRef) : Carries (.object o) o.type (some o)

/-- What an action may enter. No method stands for a field that the type of the object declares. -/
def Action.MayEnter : Action → NativeEntry → Prop
  | construct t vs, .constructor n t' vs' => t' = t ∧ vs' = vs ∧ t.Constructs vs n
  | callMember v name vs, .method n receiver vs' =>
    vs' = vs ∧ ∃ t, v.Carries t receiver ∧ t.Answers name receiver vs n
  | getMember v field, .method n receiver vs' => vs' = [] ∧ ∃ t, v.Carries t receiver ∧
      (receiver.isSome = true → field ∉ t.fields) ∧ t.Answers (Member.accessorName "get" field) receiver [] n
  | setMember v field w, .method n receiver vs' => vs' = [w] ∧ ∃ t, v.Carries t receiver ∧
      receiver.isSome = true ∧ field ∉ t.fields ∧ t.Answers (Member.accessorName "set" field) receiver [w] n
  | _, _ => False

/-- What a process may enter with its next step. -/
def Process.MayEnter (c : Process) (e : NativeEntry) : Prop := ∃ a, c.focus = .doing (.act a) ∧ a.MayEnter e

/-- What any action may enter. -/
def NativeEntry.Admissible : NativeEntry → Prop
  | constructor n t vs => t.Constructs vs n
  | method n receiver vs => ∃ (v : Value) (t : HostType) (name : String), v.Carries t receiver ∧
    t.Answers name receiver vs n

theorem Action.MayEnter.admissible {a : Action} {e : NativeEntry} (h : a.MayEnter e) : e.Admissible := by
  cases a <;> cases e <;> try exact h.elim
  case construct.constructor =>
    obtain ⟨rfl, rfl, hn⟩ := h
    exact hn
  case callMember.method =>
    obtain ⟨rfl, t, ht, hn⟩ := h
    exact ⟨_, t, _, ht, hn⟩
  case getMember.method =>
    obtain ⟨rfl, t, ht, -, hn⟩ := h
    exact ⟨_, t, _, ht, hn⟩
  case setMember.method =>
    obtain ⟨rfl, t, ht, -, -, hn⟩ := h
    exact ⟨_, t, _, ht, hn⟩

/-! ## Members behind guards -/

section Members

variable {types : Registry} {allowed : NativeEntry → Prop} {react : HostM Value} {m : Machine} {t : HostType}
  {name : String} {receiver : Option ObjectRef} {vs : List Value}

theorem NativeEntry.guard_of_allowed {e : NativeEntry} (h : allowed e) (body : HostM Value) :
    e.guard allowed react body = body := if_pos h

theorem Member.construct_guarded (h : ∀ n, t.Constructs vs n → allowed (.constructor n t vs)) :
    construct (types.guarded allowed react) t vs = construct types t vs := by
  unfold construct
  cases hc : t.constructor? vs with
  | none => rfl
  | some c =>
    have hentry : allowed (.constructor c.body t vs) := h _ (HostType.constructs_of_constructor? hc)
    simp only [Registry.guarded, Bodies.guarded, NativeEntry.guard_of_allowed hentry]

theorem Member.invoke_guarded (h : ∀ n, t.Answers name receiver vs n → allowed (.method n receiver vs)) :
    invoke (types.guarded allowed react) t receiver name vs = invoke types t receiver name vs := by
  unfold invoke
  cases hm : t.method? name vs receiver.isNone with
  | none => rfl
  | some m =>
    have hentry : allowed (.method m.body receiver vs) := h _ (HostType.answers_of_method? hm)
    simp only [Registry.guarded, Bodies.guarded, NativeEntry.guard_of_allowed hentry]

/-- Guards that let pass what an action may enter make no difference to it. -/
theorem Action.run_guarded {a : Action} (h : ∀ e, a.MayEnter e → allowed e) :
    a.run (types.guarded allowed react) m = a.run types m := by
  cases a with
  | construct t vs => rw [run, run, Member.construct_guarded fun n hn => h _ ⟨rfl, rfl, hn⟩]
  | callMember v name vs =>
    cases v with
    | type t =>
      rw [run, run, Member.call, Member.call, Member.invoke_guarded fun n hn => h _ ⟨rfl, t, .type t, hn⟩]
    | object o =>
      rw [run, run, Member.call, Member.call, Member.invoke_guarded fun n hn => h _ ⟨rfl, o.type, .object o, hn⟩]
    | _ => rfl
  | getMember v field =>
    cases v with
    | type t =>
      have hentry : ∀ n, t.Answers (Member.accessorName "get" field) none [] n → allowed (.method n none []) :=
        fun n hn => h _ ⟨rfl, t, .type t, (absurd · Bool.false_ne_true), hn⟩
      rw [run, run, Member.get, Member.get, Member.invoke_guarded hentry]
    | object o =>
      rw [run, run, Member.get_object, Member.get_object]
      cases hget : m.heap.get? o field with
      | some v => rfl
      | none =>
        have hfield : field ∉ o.type.fields := Heap.get?_eq_none_iff.1 hget
        rw [Member.invoke_guarded fun n hn => h _ ⟨rfl, o.type, .object o, fun _ => hfield, hn⟩]
    | _ => rfl
  | setMember v field w =>
    cases v with
    | object o =>
      rw [run, run, Member.set_object, Member.set_object]
      cases hset : m.heap.set? o field w with
      | some heap => rfl
      | none =>
        have hfield : field ∉ o.type.fields := Heap.set?_eq_none_iff.1 hset
        rw [Member.invoke_guarded fun n hn => h _ ⟨rfl, o.type, .object o, rfl, hfield, hn⟩]
    | _ => rfl
  | _ => rfl

end Members

/-! ## Runs -/

section Runs

variable {types types' : Registry} {limit : Nat} {c d : Process}

/-- A step asks the types for nothing but the action that it carries out. -/
theorem Process.Step.congr (hs : Step types limit c d)
    (hact : ∀ a fs m, c = ⟨.doing (.act a), fs, m⟩ → a.run types m = a.run types' m) : Step types' limit c d := by
  cases hs with
  | @act a fs m =>
    have houtcome : (a.run types).outcome m = (a.run types').outcome m := by
      simp only [EvalM.outcome, bind, EStateM.bind, hact a fs m rfl]
    rw [houtcome]
    exact .act
  | done => exact .done
  | seq => exact .seq
  | placed => exact .placed
  | block => exact .block
  | expired h => exact .expired h
  | tooDeep h hd => exact .tooDeep h hd
  | call h hd => exact .call h hd
  | goOn => exact .goOn
  | giveUp => exact .giveUp
  | place => exact .place
  | leaveBlock => exact .leaveBlock
  | leaveCall => exact .leaveCall

variable {allowed : NativeEntry → Prop} {react : HostM Value}

/-- Guards that let pass what a process may enter make no difference to its next step. -/
theorem Process.step_guarded (h : ∀ e, c.MayEnter e → allowed e) :
    Step (types.guarded allowed react) limit c d ↔ Step types limit c d := by
  have hact : ∀ a fs m, c = ⟨.doing (.act a), fs, m⟩ → a.run (types.guarded allowed react) m = a.run types m := by
    rintro a fs m rfl
    exact Action.run_guarded fun e he => h e ⟨a, rfl, he⟩
  exact ⟨fun hs => hs.congr hact, fun hs => hs.congr fun a fs m hc => (hact a fs m hc).symm⟩

/-- A step behind guards that let just that pass which the process may enter. -/
def Process.GuardedStep (types : Registry) (react : HostM Value) (limit : Nat) (c d : Process) : Prop :=
  Step (types.guarded c.MayEnter react) limit c d

theorem Process.guardedStep_eq : GuardedStep types react limit = Step types limit :=
  funext fun _ => funext fun _ => propext (step_guarded fun _ he => he)

end Runs

/-- With guards in front of all bodies of constructors and methods, and whatever is done in place of a run that they do
not let pass, every evaluation goes on as without them and every request has the same answer. So each body that is
entered is that of the first constructor, or method of the name, that takes the arguments, among the static ones without
a receiver, and it is one of the type that the receiver carries. A method stands for a field only if the type of the
object does not declare the field. -/
theorem native_entered_by_signature (i : Interpreter) (react : HostM Value) :
    (∀ c d, ReflTransGen (GuardedStep i.types react i.callLimit) c d ↔ Steps i.types i.callLimit c d) ∧
    ∀ q, (∃ r : Except EvalError Outcome,
        ReflTransGen (GuardedStep i.types react i.callLimit) (start q.plan i.machine)
          ⟨.ended r, [], (i.perform q).2.machine⟩ ∧
        (i.perform q).1 = r.map Outcome.value) ∧
      let guarded := i.types.guarded NativeEntry.Admissible react
      ({ i with types := guarded } : Interpreter).perform q =
        ((i.perform q).1, { (i.perform q).2 with types := guarded }) := by
  rw [guardedStep_eq]
  refine ⟨fun c d => Iff.rfl, fun q => ⟨i.perform_steps q, ?_⟩⟩
  let j : Interpreter := { i with types := i.types.guarded NativeEntry.Admissible react }
  obtain ⟨r, hr, hanswer⟩ := i.perform_steps q
  obtain ⟨r', hr', hanswer'⟩ := j.perform_steps q
  have hsteps : Steps i.types i.callLimit (start q.plan i.machine) ⟨.ended r', [], (j.perform q).2.machine⟩ :=
    hr'.lift id fun _ _ => (step_guarded fun _ ⟨_, _, he⟩ => he.admissible).1
  obtain ⟨rfl, hmachine⟩ := hr.unique hsteps
  have hlimit : (j.perform q).2.callLimit = (i.perform q).2.callLimit :=
    (j.callLimit_perform q).trans (i.callLimit_perform q).symm
  have hnext : (j.perform q).2 = ⟨j.types, (i.perform q).2.callLimit, (i.perform q).2.machine⟩ := by
    rw [← j.types_perform q, ← hlimit, hmachine]
  exact Prod.ext (hanswer'.trans hanswer.symm) hnext

/-- A field that is not declared is read by a method, behind guards as well. If the guards let only constructors pass,
it cannot be read. -/
theorem accessor_entered_by_signature :
    let cell : HostType := ⟨"lib.Cell", ["value"], [.default], [⟨"getAnswer", [], false, 0⟩]⟩
    let types := Registry.ofList (.ofProgram (fun _ _ _ => throw "none") fun _ _ _ => pure (.int 42)) [cell]
    let p : Program := [.importType "lib.Cell" ⟨"Cell", ⟨1, 12⟩⟩,
      .expr (.getField (.call (.name ⟨"Cell", ⟨1, 18⟩⟩) [] ⟨1, 22⟩) ⟨"answer", ⟨1, 25⟩⟩)]
    let run (types : Registry) := ((Interpreter.fresh types 8 .empty .silent).execute p).1.map Value.display
    run types = .ok "42" ∧ run (types.guarded NativeEntry.Admissible (throw "shut")) = .ok "42" ∧
      run (types.guarded (fun e => ∀ n receiver vs, e ≠ .method n receiver vs) (throw "shut")) =
        .error ⟨.hostFailure "getAnswer" "shut", ⟨1, 25⟩⟩ := by
  intro cell types p run
  have hrun : run types = .ok "42" := by decide +kernel
  obtain ⟨-, hanswers⟩ := native_entered_by_signature (.fresh types 8 .empty .silent) (throw "shut")
  have hguarded : run (types.guarded NativeEntry.Admissible (throw "shut")) = run types :=
    congrArg (fun a => a.1.map Value.display) (hanswers (.execute p)).2
  have hshut : types.guarded (fun e => ∀ n receiver vs, e ≠ .method n receiver vs) (throw "shut") =
      ⟨types.imports, types.bodies.construct, fun _ _ _ => throw "shut"⟩ := by
    simp [Registry.guarded, Bodies.guarded, NativeEntry.guard]
  refine ⟨hrun, hguarded.trans hrun, ?_⟩
  rw [hshut]
  decide +kernel

end QueryTemplate
