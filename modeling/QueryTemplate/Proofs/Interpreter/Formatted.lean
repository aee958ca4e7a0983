import Mathlib
import QueryTemplate.Proofs.Interpreter.Meaning
import QueryTemplate.Proofs.Tree.RoundTrip

/-!
# Canonical text means the same

A template and the one that its canonical text compiles to have the same bare tree. So in fresh interpreters they print
the same text, come to values of the same type and text or to the same fault, and leave the same names behind.
-/

namespace QueryTemplate

/-- Whether a value is no function. -/
def Value.IsData (v : Value) : Prop := ∀ f, v ≠ .function f

/-- No object has a function in a field. -/
def Heap.IsData (h : Heap) : Prop := ∀ (i : Nat) o, h.objects[i]? = some o → ∀ x ∈ o.fields.entries, x.2.IsData

/-- The type and the text of a value. -/
def Value.shown (v : Value) : String × String := (v.typeName, v.display)

/-- The global names with the types and texts of their values, in the order in which they were bound. -/
def Interpreter.globals (i : Interpreter) : List (String × String × String) :=
  match i.machine.scopes.scope? ScopeStore.global with
  | some s => s.bindings.entries.map fun x => (x.1, x.2.shown)
  | none => []

/-- What is seen of a run. -/
structure Observation where
  printed : String
  /-- The type and text of the value, or the fault without its place. -/
  result : Except EvalFault (String × String)
  globals : List (String × String × String)

/-- What is seen of a result and the interpreter after it. -/
def Interpreter.observe (r : Except EvalError Value × Interpreter) : Observation :=
  ⟨r.2.printed, (r.1.map Value.shown).mapError EvalError.fault, r.2.globals⟩

open Level EvalM

theorem Value.Alike.shown {v w : Value} (h : v.Alike w) : v.shown = w.shown := by
  rw [Value.shown, Value.shown, h.typeName, h.display]

/-- The global scopes of both runs, on top of which there are none. -/
def globalLevel : List Level := [(ScopeStore.global, some ScopeStore.global)]

/-- The global scopes of both runs stand for each other. -/
def globalPair : Pairing := fun a b => a = ScopeStore.global ∧ b = ScopeStore.global

theorem twin_fresh (types : Registry) (callLimit : Nat) {heap : Heap} (hheap : heap.IsData) (output : Output) :
    Machine.Twin globalPair globalLevel (Interpreter.fresh types callLimit heap output).machine
      (Interpreter.fresh types callLimit heap output).machine := by
  refine ⟨⟨.initial, .initial, ?_, fun a b hab => ?_, .initial, .initial, Nat.le_refl _⟩, rfl, rfl, rfl, ?_, rfl, rfl⟩
  · exact .paired ⟨rfl, rfl⟩ rfl rfl ⟨.empty, .none⟩ .nil
  · obtain ⟨rfl, rfl⟩ := hab
    exact .inl List.mem_cons_self
  · intro i
    show Option.Rel _ heap.objects[i]? heap.objects[i]?
    cases ho : heap.objects[i]? with
    | none => exact .none
    | some o => exact .some ⟨rfl, List.forall₂_same.2 fun x hx => ⟨rfl, .data (hheap i o ho x hx)⟩⟩

theorem twin_defineAll {i i' : Interpreter} (h : Machine.Twin globalPair globalLevel i.machine i'.machine)
    {seeds : List (String × Value)} (hseeds : ∀ x ∈ seeds, x.2.IsData) :
    Machine.Twin globalPair globalLevel (i.defineAll seeds).machine (i'.defineAll seeds).machine := by
  induction seeds generalizing i i' with
  | nil => exact h
  | cons x seeds ih =>
    refine ih (h.define (.data (hseeds x List.mem_cons_self)) x.1) fun y hy => hseeds y (List.mem_cons_of_mem _ hy)

theorem Interpreter.globals_eq {i i' : Interpreter} {ρ : Pairing}
    (h : Machine.Twin ρ globalLevel i.machine i'.machine) : i.globals = i'.globals := by
  have hentries : ∀ {xs ys : List (String × Value)}, List.Forall₂ (Value.RelatedEntry (Closure.Twin ρ)) xs ys →
      xs.map (fun x => (x.1, x.2.shown)) = ys.map fun x => (x.1, x.2.shown) := by
    intro xs ys h
    induction h with
    | nil => rfl
    | cons he _ ih => rw [List.map_cons, List.map_cons, ih, he.1, he.2.twin_alike.shown]
  obtain ⟨s, s', hs, hs', hb, -⟩ := h.scopes.linked.scopes List.mem_cons_self
  unfold globals
  rw [hs, hs']
  exact hentries hb

/-- Of results that agree the same is seen. -/
theorem Interpreter.observe_run {i i' : Interpreter} {x y : EvalM Value} {ρ : Pairing}
    (h : EvalM.Agree ρ globalLevel Value.Twin (x i.machine) (y i'.machine)) :
    observe (i.run x) = observe (i'.run y) := by
  unfold run
  generalize x i.machine = r at h
  generalize y i'.machine = r' at h
  cases h with
  | @ok _ _ m m' value states =>
    have hglobals : globals { i with machine := m } = globals { i' with machine := m' } := globals_eq states
    have hprinted : m.output.text = m'.output.text := congrArg Output.text states.output
    simp only [observe, printed, hprinted, hglobals, Except.map, value.twin_alike.shown]
  | @error _ _ m m' fault states =>
    have hglobals : globals { i with machine := m } = globals { i' with machine := m' } := globals_eq states
    have hprinted : m.output.text = m'.output.text := congrArg Output.text states.output
    simp only [observe, printed, hprinted, hglobals, Except.map, Except.mapError, fault]

/-- Of a template and its bare tree the same is seen. -/
theorem Interpreter.observe_execute_bareAll {i : Interpreter} (htypes : i.types.Uniform)
    (h : Machine.Twin globalPair globalLevel i.machine i.machine) (p : Program)
    (ho : (i.execute p).2.machine.scopes.opened < 2 ^ 32) :
    observe (i.execute p) = observe (i.execute (Stmt.bareAll p)) := by
  have env : Surroundings i.types i.invoke := callWithin_simulates htypes i.callLimit i.callLimit
  have hbody : EvalM.Simulates globalPair globalLevel Outcome.Twin _ _ :=
    execBody_simulates env .null p ScopeStore.global ScopeStore.global []
  have hvalue := hbody.bind [] (fun o => keeps_pure o.value) fun ρ _ o o' ho => show EvalM.Simulates ρ globalLevel
    Value.Twin (pure o.value) (pure o'.value) by
      cases ho with
      | done hv | returned hv => exact .pure hv
  rw [execute, i.machine_run] at ho
  obtain ⟨ρ, -, hagree⟩ := hvalue i.machine i.machine h ho
  exact observe_run hagree

theorem Stmt.bareAll_eq_of_alike {p q : Program} (h : List.Forall₂ Stmt.Alike p q) :
    Stmt.bareAll p = Stmt.bareAll q := by
  induction h with
  | nil => rfl
  | cons hs _ ih => rw [Stmt.bareAll, Stmt.bareAll, hs, ih]

/-- The canonical text of a template compiles to a template of which the same is seen: in fresh interpreters with the
same host types, objects, seeded names and limit on calls both print the same, come to a value of the same type and text
or to the same fault, and leave the same global names with values of the same types and texts, unless one of them opens
2³² scopes. A fresh interpreter has made no functions, so neither the objects nor the seeds hold any. -/
theorem observe_execute_formatProgram {source : String} {p : Program} (h : compile source = .ok p)
    (hf : ∀ s ∈ p, ∀ x, (TokenKind.number, .decimal x) ∈ s.symbols → ReadsBack x) {types : Registry}
    (htypes : types.Uniform) {heap : Heap} (hheap : heap.IsData) {seeds : List (String × Value)}
    (hseeds : ∀ x ∈ seeds, x.2.IsData) (callLimit : Nat) (output : Output) :
    ∃ q, compile (formatProgram p) = .ok q ∧
      let i := (Interpreter.fresh types callLimit heap output).defineAll seeds
      (i.execute p).2.machine.scopes.opened < 2 ^ 32 → (i.execute q).2.machine.scopes.opened < 2 ^ 32 →
      Interpreter.observe (i.execute q) = Interpreter.observe (i.execute p) := by
  obtain ⟨q, hu, hq⟩ := compile_canonicalText (writable_of_compile h hf)
  refine ⟨q, hq, ?_⟩
  intro i hp hq
  have hi : Machine.Twin globalPair globalLevel i.machine i.machine :=
    twin_defineAll (twin_fresh types callLimit hheap output) hseeds
  have htypes : i.types.Uniform := by
    rw [Interpreter.types_defineAll]
    exact htypes
  rw [Interpreter.observe_execute_bareAll htypes hi p hp, Interpreter.observe_execute_bareAll htypes hi q hq,
    Stmt.bareAll_eq_of_alike (Stmt.alike_of_canonicalAll hu)]

set_option maxRecDepth 20000 in
/-- A sum gets braces where it is a branch, and still means the same. -/
theorem sum_in_branch_observed :
    let p : Program := [.ifThen (.name ⟨"b", ⟨1, 3⟩⟩)
      (.expr (.binary .add (.name ⟨"n", ⟨1, 5⟩⟩) (.name ⟨"n", ⟨1, 7⟩⟩) ⟨1, 6⟩))]
    let q : Program := [.ifThen (.name ⟨"b", ⟨1, 3⟩⟩) (.block [.expr (.grouping
      (.binary .add (.name ⟨"n", ⟨2, 6⟩⟩) (.name ⟨"n", ⟨2, 10⟩⟩) ⟨2, 8⟩) ⟨2, 5⟩)])]
    let types := Registry.ofList .empty [⟨"lib.Cell", ["value"], [.default], []⟩]
    let i := (Interpreter.fresh types 8 .empty (.buffer "")).defineAll [("b", .bool true), ("n", .int 21)]
    compile "if b n+n" = .ok p ∧ compile (formatProgram p) = .ok q ∧
      Interpreter.observe (i.execute q) = Interpreter.observe (i.execute p) := by
  intro p q types i
  have hp : compile "if b n+n" = .ok p := by cbv
  have htext : formatProgram p = "if b \x7b\n    (n + n);\n\x7d" := by cbv
  have hq : compile (formatProgram p) = .ok q := by
    rw [htext]
    cbv
  have hf : ∀ s ∈ p, ∀ x, (TokenKind.number, .decimal x) ∈ s.symbols → ReadsBack x := by
    simp [p, Stmt.symbols, Expr.symbols]
  have htypes : types.Uniform := Bodies.uniform_empty
  have hheap : Heap.IsData .empty := fun i o ho => by cases ho
  have hseeds : ∀ x ∈ [("b", Value.bool true), ("n", .int 21)], x.2.IsData := by
    simp only [List.forall_mem_cons]
    refine ⟨?_, ?_, List.forall_mem_nil _⟩ <;> (intro f hf; cases hf)
  obtain ⟨q', hq', hsame⟩ := observe_execute_formatProgram hp hf htypes hheap hseeds 8 (.buffer "")
  rw [hq] at hq'
  cases hq'
  exact ⟨hp, hq, hsame (by decide +kernel) (by decide +kernel)⟩

/-- What bodies of host types and the heap are asked for cannot be left out. A body that looks where a function stands
sees where the formatted text puts it. A function of an earlier run, kept in an object, has a handle that no scope of
this run answers to, until the formatted text opens one more scope. Nor does a template have to come to a value or an
error: a text that is repeated too often panics, formatted or not. -/
theorem formatted_text_observed_apart :
    (let probe : HostType := ⟨"lib.Probe", [], [], [⟨"column", [.function], true, 0⟩]⟩
      let column : List Value → Value
        | .function f :: _ => .int (.ofNat f.declaration.name.position.column)
        | _ => .null
      let types := Registry.ofList (.ofProgram (fun _ _ _ => throw "none") fun _ _ vs => pure (column vs)) [probe]
      let i := Interpreter.fresh types 8 .empty .silent
      ∃ p q, compile "import lib.Probe; fun  f() \x7b\x7d Probe.column(f)" = .ok p ∧ compile (formatProgram p) = .ok q ∧
        (i.execute p).1.map Value.shown = .ok ("int", "23") ∧ (i.execute q).1.map Value.shown = .ok ("int", "5")) ∧
    (let cell : HostType := ⟨"lib.Cell", ["f"], [.default], []⟩
      let earlier : Closure := ⟨0, ⟨⟨"f", ⟨1, 4⟩⟩, [], []⟩, ⟨1, 0⟩⟩
      let heap : Heap := ⟨((HostObject.new cell).set? "f" (.function earlier)).toArray⟩
      let i := (Interpreter.fresh (.ofList .empty [cell]) 8 heap .silent).defineAll
        [("b", .bool true), ("cell", .object ⟨cell, 0⟩)]
      ∃ p q, compile "var g = cell.f; if b g()==null" = .ok p ∧ compile (formatProgram p) = .ok q ∧
        (i.execute p).1.map Value.shown = .error ⟨.scopeExpired "f", ⟨1, 22⟩⟩ ∧
        (i.execute q).1.map Value.shown = .ok ("bool", "true")) ∧
    (let i := (Interpreter.fresh .empty 8 .empty .silent).defineAll [("n", .long 9223372036854775807)]
      ∃ p q, compile "\"ab\"*n" = .ok p ∧ compile (formatProgram p) = .ok q ∧
        (i.execute p).1.map Value.shown = .error ⟨.panic .capacityOverflow, ⟨1, 4⟩⟩ ∧
        (i.execute q).1.map Value.shown = .error ⟨.panic .capacityOverflow, ⟨1, 6⟩⟩) := by
  refine ⟨?place, ?earlier, ?panic⟩
  case place =>
    intro probe column types i
    let p : Program := [.importType "lib.Probe" ⟨"Probe", ⟨1, 11⟩⟩, .function ⟨"f", ⟨1, 23⟩⟩ [] [],
      .expr (.callMethod (.name ⟨"Probe", ⟨1, 30⟩⟩) ⟨"column", ⟨1, 36⟩⟩ [.name ⟨"f", ⟨1, 43⟩⟩])]
    let q : Program := [.importType "lib.Probe" ⟨"Probe", ⟨1, 11⟩⟩, .function ⟨"f", ⟨2, 5⟩⟩ [] [],
      .expr (.callMethod (.name ⟨"Probe", ⟨3, 1⟩⟩) ⟨"column", ⟨3, 7⟩⟩ [.name ⟨"f", ⟨3, 14⟩⟩])]
    have htext : formatProgram p = "import lib.Probe;\nfun f() \x7b\x7d\nProbe.column(f);" := by cbv
    refine ⟨p, q, by cbv, ?_, by decide +kernel, by decide +kernel⟩
    rw [htext]
    cbv
  case earlier =>
    intro cell earlier heap i
    let p : Program := [.define ⟨"g", ⟨1, 4⟩⟩ (.getField (.name ⟨"cell", ⟨1, 8⟩⟩) ⟨"f", ⟨1, 13⟩⟩),
      .ifThen (.name ⟨"b", ⟨1, 19⟩⟩) (.expr (.binary .eq (.call (.name ⟨"g", ⟨1, 21⟩⟩) [] ⟨1, 22⟩)
        (.literal .null ⟨1, 26⟩) ⟨1, 24⟩))]
    let q : Program := [.define ⟨"g", ⟨1, 4⟩⟩ (.getField (.name ⟨"cell", ⟨1, 8⟩⟩) ⟨"f", ⟨1, 13⟩⟩),
      .ifThen (.name ⟨"b", ⟨2, 4⟩⟩) (.block [.expr (.grouping (.binary .eq
        (.call (.name ⟨"g", ⟨3, 6⟩⟩) [] ⟨3, 7⟩) (.literal .null ⟨3, 13⟩) ⟨3, 10⟩) ⟨3, 5⟩)])]
    have htext : formatProgram p = "var g = cell.f;\nif b \x7b\n    (g() == null);\n\x7d" := by cbv
    refine ⟨p, q, by cbv, ?_, by decide +kernel, by decide +kernel⟩
    rw [htext]
    cbv
  case panic =>
    intro i
    let p : Program := [.expr (.binary .mul (.literal (.string "ab") ⟨1, 0⟩) (.name ⟨"n", ⟨1, 5⟩⟩) ⟨1, 4⟩)]
    let q : Program := [.expr (.grouping (.binary .mul (.literal (.string "ab") ⟨1, 1⟩) (.name ⟨"n", ⟨1, 8⟩⟩)
      ⟨1, 6⟩) ⟨1, 0⟩)]
    have htext : formatProgram p = "(\"ab\" * n);" := by cbv
    refine ⟨p, q, by cbv, ?_, by decide +kernel, by decide +kernel⟩
    rw [htext]
    cbv

end QueryTemplate
