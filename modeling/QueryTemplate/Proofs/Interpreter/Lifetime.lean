import Mathlib
import QueryTemplate.Proofs.Interpreter.Linked
import QueryTemplate.Proofs.Interpreter.Nesting
import QueryTemplate.Proofs.Interpreter.TopLevel
import QueryTemplate.Template

/-!
# How long closures last

A declaration that is executed makes a closure, and the block or call in which it is executed is the home of the closure
(`Made`). The states that an interpreter comes to, with the closures that have been made on the way, are those of
`Process.Reached`: templates run and requests are answered one after another, step by step.

A closure whose home is in progress has a live scope, and one whose home has ended has a scope that will not be live
again, unless 2³² scopes are opened (`Made.Located`). If neither bodies of host types nor the surrounding program make
up closures, then every closure that is held or called is one that has been made (`Process.Sound`). Mappers are made at
top level only, since the grammar has them nowhere else (`Process.Shaped`).
-/

namespace QueryTemplate

open EvalM

/-! ## Closures and where they are made -/

/-- A closure that a declaration has made. -/
structure Made where
  closure : Closure
  /-- The number of the block or call that executed the declaration. At top level there is none. -/
  home : Option Nat
  isMapper : Bool

/-- The closures that the next step makes. -/
def Process.makes (c : Process) : List Made :=
  match c.focus with
  | .doing (.act (.function d)) =>
    [⟨⟨c.machine.declarations, d, c.machine.current⟩, c.activations.head?.map Activation.number, false⟩]
  | .doing (.act (.mapper d)) =>
    [⟨⟨c.machine.declarations, d, c.machine.current⟩, c.activations.head?.map Activation.number, true⟩]
  | _ => []

/-- The block or call that executed the declaration has ended. -/
def Made.Finished (c : Process) (r : Made) : Prop := ∃ n, r.home = some n ∧ ∀ a ∈ c.activations, a.number ≠ n

/-- A mapper that another interpreter has made of a template. -/
def Made.IsForeign (r : Made) : Prop :=
  r.isMapper = true ∧ r.home = none ∧ r.closure.scope = ScopeStore.global ∧ ∃ (tokens : List Token) (p : Program),
    parse tokens = .ok p ∧
      .mapper r.closure.declaration.name r.closure.declaration.parameters r.closure.declaration.body ∈ p

/-- The same objects in the same places, and no closures but these. -/
def Link.within (functions mappers : Closure → Prop) : Link where
  function := functions
  mapper := mappers
  place i j := i = j
  left_unique h h' := h.trans h'.symm
  right_unique h h' := h.symm.trans h'
  later := 0
  before := ""

/-- No closures but those made. -/
def Made.link (made : List Made) : Link :=
  .within (fun f => ∃ r ∈ made, r.closure = f ∧ r.isMapper = false)
    fun f => ∃ r ∈ made, r.closure = f ∧ r.isMapper = true

/-- A closure is one that has been made. -/
def Value.Known (made : List Made) (v : Value) : Prop := v.Linked (Made.link made) v

/-- Closures in fields have been made. -/
def Heap.Known (made : List Made) (h : Heap) : Prop := h.Linked (Made.link made) h

/-- Bodies of host types hand on the closures that they are given or find in fields, and make up none. -/
def Registry.Honest (types : Registry) : Prop := ∀ functions mappers, types.Links (.within functions mappers)

/-- A request that holds no closures but those made, and no program but a parsed one. -/
def Request.Known (made : List Made) : Request → Prop
  | execute program => ∃ tokens, parse tokens = .ok program
  | evaluate _ => True
  | call callee arguments => callee.Known made ∧ ∀ v ∈ arguments, v.Known made
  | mapRow mapper _ => mapper.Known made

/-- The processes that an interpreter comes to, with the closures that have been made. Requests are answered one after
another. Before the first one and in between the surrounding program may bind names, change its objects and what has
been printed, and run templates elsewhere. If it is `closed`, then it runs parsed templates and hands in no closures but
those that have been made. -/
inductive Process.Reached (types : Registry) (limit : Nat) (closed : Prop) : List Made → Process → Prop
  | fresh {made : List Made} (hm : ∀ r ∈ made, r.IsForeign) {heap : Heap} (hheap : closed → heap.Known made)
    (output : Output) (count : Nat) : Reached types limit closed made
      ⟨.ended (.ok (.done .null)), [], ((Interpreter.fresh types limit heap output).numberedFrom count).machine⟩
  | step {made c d} (h : Reached types limit closed made c) (hs : Step types limit c d) :
    Reached types limit closed (c.makes ++ made) d
  | request {made r m} (h : Reached types limit closed made ⟨.ended r, [], m⟩) (q : Request)
    (hq : closed → q.Known made) : Reached types limit closed made (start q.plan m)
  | define {made r m} (h : Reached types limit closed made ⟨.ended r, [], m⟩) (name : String) {v : Value}
    (hv : closed → v.Known made) : Reached types limit closed made
      ⟨.ended r, [], { m with scopes := m.scopes.define m.current name v }⟩
  | surroundings {made r m} (h : Reached types limit closed made ⟨.ended r, [], m⟩) {heap : Heap}
    (hheap : closed → heap.Known made) (output : Output) (declarations : Nat) :
    Reached types limit closed made ⟨.ended r, [], { m with heap, output, declarations }⟩

namespace Process

variable {types : Registry} {limit : Nat} {closed : Prop} {made : List Made} {c d : Process}

/-! ## Scopes -/

theorem nested_fresh (heap : Heap) (output : Output) (count : Nat) (r : Except EvalError Outcome) :
    Nested ⟨.ended r, [], ((Interpreter.fresh types limit heap output).numberedFrom count).machine⟩ where
  stack := .initial
  current := rfl
  previous _ _ h := nomatch List.suffix_nil.1 h
  numbered := .nil
  opened := List.forall_mem_nil _
  parent := List.forall_mem_nil _
  outermost := rfl

theorem Reached.nested (h : Reached types limit closed made c) : c.Nested := by
  induction h with
  | fresh hm hheap output count => exact nested_fresh _ _ _ _
  | step _ hs ih => exact ih.move hs.move
  | request _ q _ ih => exact ih.move (.stay rfl rfl .same)
  | define _ name _ ih => exact ih.move (.stay rfl rfl (.defined name _))
  | surroundings _ _ _ _ ih => exact ih.move (.stay rfl rfl .same)

end Process

/-! ## Homes -/

/-- Where a closure that has been made stands: its home is the top level, or it is in progress with the scope of the
closure, or it has ended and the scope has been released. -/
inductive Made.Located (c : Process) (r : Made) : Prop
  | outermost (home : r.home = none) (scope : r.closure.scope = ScopeStore.global)
  | running {a : Activation} (mem : a ∈ c.activations) (home : r.home = some a.number)
    (scope : r.closure.scope = a.scope)
  | ended {n : Nat} (home : r.home = some n) (opened : n < c.machine.scopes.opened)
    (finished : ∀ a ∈ c.activations, a.number ≠ n) (past : c.machine.scopes.Past r.closure.scope)

namespace Process

variable {types : Registry} {limit : Nat} {closed : Prop} {made : List Made} {c d : Process} {r : Made}

/-- A closure is live as long as its home. -/
theorem Nested.isLive_iff (hc : c.Nested) (h : r.Located c) :
    c.machine.scopes.isLive r.closure.scope = false ↔ r.Finished c := by
  have hlive : ∀ {id}, id ∈ Activation.scopes c.activations → c.machine.scopes.isLive id = true :=
    (hc.stack.live_iff _).2
  cases h with
  | outermost home scope =>
    rw [scope, hlive (Activation.mem_scopes.2 (.inl rfl))]
    refine iff_of_false (by simp) fun ⟨n, hn, _⟩ => ?_
    rw [home] at hn
    cases hn
  | running mem home scope =>
    rw [scope, hlive (Activation.mem_scopes.2 (.inr ⟨_, mem, rfl⟩))]
    refine iff_of_false (by simp) fun ⟨n, hn, hfinished⟩ => ?_
    rw [home] at hn
    exact hfinished _ mem (Option.some.inj hn)
  | ended home _ finished past => exact iff_of_true past.not_live ⟨_, home, finished⟩

/-- A closure that is made in a step has the innermost block or call for its home. -/
theorem Nested.located_makes (hc : c.Nested) (hr : r ∈ c.makes) : r.Located c := by
  have hhome : r.home = c.activations.head?.map Activation.number ∧ r.closure.scope = c.machine.current := by
    unfold makes at hr
    split at hr
    · rw [List.mem_singleton.1 hr]
      exact ⟨rfl, rfl⟩
    · rw [List.mem_singleton.1 hr]
      exact ⟨rfl, rfl⟩
    · cases hr
  rw [hc.current] at hhome
  cases h : c.activations with
  | nil =>
    rw [h] at hhome
    exact .outermost hhome.1 hhome.2
  | cons a as =>
    rw [h] at hhome
    exact .running (h ▸ List.mem_cons_self) hhome.1 hhome.2

theorem counted_move (hc : c.Nested) (h : c.machine.scopes.Counted) (hm : c.Move d)
    (ho : d.machine.scopes.opened < 2 ^ 32) : d.machine.scopes.Counted := by
  cases hm with
  | stay ha hcur hs =>
    have hsame := hs.sameScopes hc.stack.consistent
    exact h.of_live hsame.generation (fun id => ScopeStore.isLive_congr_parent? (hsame.parent? id)) hsame.opened
  | enter hl ha hcur hs =>
    rw [hs]
    exact Machine.enter_counted hc.stack.consistent h _ _
  | @leave a ha hcur hs =>
    obtain ⟨hscope, hglobal⟩ := hc.current_ne_global ha
    rw [hs, ScopeStore.release_opened] at ho
    rw [hs]
    exact h.release hc.current_live (hscope ▸ hglobal) ho

theorem located_move (hc : c.Nested) (hcounted : c.machine.scopes.Counted) (h : r.Located c) (hm : c.Move d)
    (ho : d.machine.scopes.opened < 2 ^ 32) : r.Located d := by
  cases hm with
  | stay ha hcur hs =>
    have hsame := hs.sameScopes hc.stack.consistent
    cases h with
    | outermost home scope => exact .outermost home scope
    | running mem home scope => exact .running (ha ▸ mem) home scope
    | ended home opened finished past =>
      exact .ended home (hsame.opened ▸ opened) (ha ▸ finished) (past.of_generation hsame.generation)
  | enter hl ha hcur hs =>
    cases h with
    | outermost home scope => exact .outermost home scope
    | running mem home scope => exact .running (ha ▸ List.mem_cons_of_mem _ mem) home scope
    | ended home opened finished past =>
      refine .ended home ?_ ?_ ?_
      · rw [hs, enter_opened]
        exact Nat.lt_succ_of_lt opened
      · rw [ha]
        exact List.forall_mem_cons.2 ⟨Nat.ne_of_gt opened, finished⟩
      · rw [hs]
        exact Machine.enter_past past _ _
  | @leave a ha hcur hs =>
    obtain ⟨hscope, hglobal⟩ := hc.current_ne_global ha
    rw [hs, ScopeStore.release_opened] at ho
    have hpast : ∀ {id}, id = c.machine.current ∨ c.machine.scopes.Past id → d.machine.scopes.Past id := by
      rw [hs]
      exact hcounted.past_release hc.current_live (hscope ▸ hglobal) ho
    have hopened : d.machine.scopes.opened = c.machine.scopes.opened := by rw [hs, ScopeStore.release_opened]
    have hnumbered := hc.numbered
    rw [ha] at hnumbered
    have hmem : ∀ b ∈ d.activations, b ∈ c.activations := fun b hb => ha ▸ List.mem_cons_of_mem _ hb
    cases h with
    | outermost home scope => exact .outermost home scope
    | @running b mem home scope =>
      have hb := mem
      rw [ha] at hb
      rcases List.mem_cons.1 hb with rfl | hb
      · refine .ended home (hopened ▸ hc.opened b mem) (fun b' hb' => ?_) (hpast (.inl (scope.trans hscope.symm)))
        exact Nat.ne_of_lt ((List.pairwise_cons.1 hnumbered).1 b' hb')
      · exact .running hb home scope
    | ended home opened finished past =>
      exact .ended home (hopened ▸ opened) (fun b hb => finished b (hmem b hb)) (hpast (.inr past))

/-- Unless too many scopes have been opened, all closures that have been made stand where they should. -/
theorem Reached.located (h : Reached types limit closed made c) (ho : c.machine.scopes.opened < 2 ^ 32) :
    c.machine.scopes.Counted ∧ ∀ r ∈ made, r.Located c := by
  have hmove : ∀ {made c d}, Reached types limit closed made c → c.Move d → d.machine.scopes.opened < 2 ^ 32 →
      (c.machine.scopes.opened < 2 ^ 32 → c.machine.scopes.Counted ∧ ∀ r ∈ made, r.Located c) →
      d.machine.scopes.Counted ∧ ∀ r ∈ c.makes ++ made, r.Located d := by
    intro made c d h hm ho ih
    obtain ⟨hcounted, hlocated⟩ := ih (Nat.lt_of_le_of_lt (h.nested.opened_le hm) ho)
    refine ⟨counted_move h.nested hcounted hm ho, fun r hr => located_move h.nested hcounted ?_ hm ho⟩
    rcases List.mem_append.1 hr with hr | hr
    · exact h.nested.located_makes hr
    · exact hlocated r hr
  induction h with
  | fresh hm hheap output count => exact ⟨.initial, fun r hr => .outermost (hm r hr).2.1 (hm r hr).2.2.1⟩
  | step h hs ih => exact hmove h hs.move ho ih
  | request h q _ ih => exact hmove h (.stay rfl rfl .same) ho ih
  | define h name _ ih => exact hmove h (.stay rfl rfl (.defined name _)) ho ih
  | surroundings h _ _ _ ih => exact hmove h (.stay rfl rfl .same) ho ih

end Process

/-! ## Closures that are held -/

/-- All closures that have been made may occur, as functions or as mappers. -/
def Made.Among (functions mappers : Closure → Prop) (made : List Made) : Prop :=
  ∀ r ∈ made, (r.isMapper = false → functions r.closure) ∧ (r.isMapper = true → mappers r.closure)

section

variable {functions mappers : Closure → Prop} {made : List Made}

theorem Made.among_link (made : List Made) : Made.Among (Made.link made).function (Made.link made).mapper made :=
  fun r hr => ⟨fun h => ⟨r, hr, rfl, h⟩, fun h => ⟨r, hr, rfl, h⟩⟩

theorem Made.Among.function (ha : Made.Among functions mappers made) {f : Closure}
    (h : (Made.link made).function f) : functions f := by
  obtain ⟨r, hr, rfl, hm⟩ := h
  exact (ha r hr).1 hm

theorem Made.Among.mapper (ha : Made.Among functions mappers made) {f : Closure}
    (h : (Made.link made).mapper f) : mappers f := by
  obtain ⟨r, hr, rfl, hm⟩ := h
  exact (ha r hr).2 hm

theorem Value.Linked.within {v w : Value} (h : v.Linked (Made.link made) w)
    (ha : Made.Among functions mappers made) : v.Linked (.within functions mappers) w := by
  refine h.mono ?_ ?_ ?_ ?_
  · exact fun f hf => ha.function hf
  · exact fun f hf => ha.mapper hf
  · exact fun i j hij => hij
  · rfl

theorem Heap.Known.within {h : Heap} (hk : h.Known made) (ha : Made.Among functions mappers made) :
    h.Linked (.within functions mappers) h := by
  refine ⟨fun {i j} hij => ?_, fun n => rfl⟩
  have ho := hk.objects hij
  generalize h.objects[i]? = x at ho
  generalize h.objects[j]? = y at ho
  cases ho with
  | none => exact .none
  | some hb => exact .some (hb.mono fun v w hv => hv.within ha)

theorem Request.Known.linked {q : Request} (h : q.Known made) (ha : Made.Among functions mappers made) :
    q.Linked (.within functions mappers) q := by
  cases q with
  | execute program => exact .execute program
  | evaluate e => exact .evaluate e
  | call callee arguments =>
    exact .call (h.1.within ha) (List.forall₂_same.2 fun v hv => (h.2 v hv).within ha)
  | mapRow mapper row => exact .mapRow (h.within ha) row

theorem Request.Known.shaped {q : Request} (h : q.Known made) : q.plan.Shaped false := by
  cases q with
  | execute program =>
    obtain ⟨tokens, hp⟩ := h
    exact programPlan_shaped .null (parse_shaped hp)
  | evaluate e => exact exprPlan_shaped e
  | call callee arguments => exact .callPlan (fun _ ha => ha.shaped) callee arguments
  | mapRow mapper row =>
    cases mapper with
    | mapper f =>
      simp only [plan]
      cases Interpreter.keyBindings row f.declaration.parameters with
      | error e => exact .placed (.act trivial)
      | ok keys => exact .call
    | _ => exact .act trivial

end

/-- Every closure that is held has been made, mappers are declared at top level only, and all bodies have the shape that
the grammar gives them. -/
structure Process.Sound (made : List Made) (c : Process) : Prop where
  held : ∀ functions mappers, Made.Among functions mappers made → c.Linked (.within functions mappers) c
  shaped : c.Shaped
  bodies : ∀ r ∈ made, Stmt.AllShaped r.closure.declaration.body ∧ (r.isMapper = true → r.home = none)

namespace Process

variable {types : Registry} {limit : Nat} {closed : Prop} {made : List Made} {c d : Process}

theorem Shaped.of_makes (h : c.Shaped) {r : Made} (hr : r ∈ c.makes) :
    Stmt.AllShaped r.closure.declaration.body ∧ (r.isMapper = true → r.home = none) := by
  unfold makes at hr
  split at hr
  next d hd =>
    cases h.focus _ hd with
    | act ha =>
      rw [List.mem_singleton.1 hr]
      exact ⟨ha, nofun⟩
  next d hd =>
    cases h.focus _ hd with
    | act ha =>
      rw [List.mem_singleton.1 hr]
      refine ⟨ha.2, fun _ => ?_⟩
      rw [activations, activations_of_outside ha.1]
      rfl
  · cases hr

theorem Sound.called (h : c.Sound made) {f : Closure} {bindings : List (String × Value)}
    (hf : c.focus = .doing (.call f bindings)) : ∃ r ∈ made, r.closure = f := by
  have hfocus := (h.held _ _ (Made.among_link made)).focus
  rw [hf] at hfocus
  cases hfocus with
  | doing h =>
    cases h with
    | call hf _ _ =>
      rcases hf with ⟨r, hr, he, -⟩ | ⟨r, hr, he, -⟩
      · exact ⟨r, hr, he⟩
      · exact ⟨r, hr, he⟩

theorem Sound.step (h : c.Sound made) (htypes : types.Honest) (hs : Step types limit c d) :
    d.Sound (c.makes ++ made) := by
  refine ⟨fun functions mappers ha => ?_, h.shaped.step (fun f bindings hf => ?_) hs, fun r hr => ?_⟩
  · have hc := h.held functions mappers fun r hr => ha r (List.mem_append_right _ hr)
    have hadmitted : c.Admitted (.within functions mappers) := by
      intro a hfocus
      cases a with
      | function d => exact (ha _ (List.mem_append_left _ (by rw [makes, hfocus]; exact List.mem_cons_self))).1 rfl
      | mapper d => exact (ha _ (List.mem_append_left _ (by rw [makes, hfocus]; exact List.mem_cons_self))).2 rfl
      | _ => trivial
    obtain ⟨d', hs', hd⟩ := hc.step (htypes functions mappers) hadmitted hs
    rwa [← hs.unique hs'] at hd
  · obtain ⟨r, hr, rfl⟩ := h.called hf
    exact (h.bodies r hr).1
  · rcases List.mem_append.1 hr with hr | hr
    · exact h.shaped.of_makes hr
    · exact h.bodies r hr

theorem Reached.sound (h : Reached types limit closed made c) (htypes : types.Honest) (hclosed : closed) :
    c.Sound made := by
  induction h with
  | @fresh made hm heap hheap output count =>
    refine ⟨fun functions mappers ha => ?_, ⟨nofun, trivial⟩, fun r hr => ?_⟩
    · exact ⟨.ok (.done (.plain rfl)), .nil,
        ⟨.initial, rfl, rfl, (hheap hclosed).within ha, output.linked_self, rfl⟩⟩
    · obtain ⟨-, hhome, -, tokens, p, hp, hmem⟩ := hm r hr
      have hshaped := parse_shaped hp _ hmem
      rw [Stmt.Shaped] at hshaped
      exact ⟨hshaped, fun _ => hhome⟩
  | step _ hs ih => exact ih.step htypes hs
  | request _ q hq ih =>
    refine ⟨fun functions mappers ha => ?_, ⟨fun x hx => ?_, trivial⟩, ih.bodies⟩
    · exact ⟨.doing ((hq hclosed).linked ha).plan, .nil, (ih.held functions mappers ha).machine⟩
    · cases hx
      exact (hq hclosed).shaped
  | define _ name hv ih =>
    refine ⟨fun functions mappers ha => ?_, ⟨nofun, trivial⟩, ih.bodies⟩
    obtain ⟨hfocus, hframes, hm⟩ := ih.held functions mappers ha
    exact ⟨hfocus, hframes, hm.define name ((hv hclosed).within ha)⟩
  | surroundings _ hheap output declarations ih =>
    refine ⟨fun functions mappers ha => ?_, ⟨nofun, trivial⟩, ih.bodies⟩
    obtain ⟨hfocus, hframes, hm⟩ := ih.held functions mappers ha
    have hlinked := (hheap hclosed).within ha
    exact ⟨hfocus, hframes, { hm with heap := hlinked, output := output.linked_self, declarations := rfl }⟩

end Process

/-! ## Calls -/

section

variable {types : Registry} {limit : Nat} {m : Machine}

/-- A call that begins opens a scope. -/
theorem opened_lt_of_call {room : Nat} {f : Closure} {bindings : List (String × Value)}
    (hl : m.scopes.isLive f.scope = true) (hd : m.callDepth < limit) :
    m.scopes.opened < ((callWithin types limit (room + 1) f bindings).after m).scopes.opened := by
  have hbody : Keeps (f.declaration.body.flatMap Stmt.declares) (f.plan.run types (callWithin types limit room)) := by
    rw [Closure.plan, run_stmtPlans]
    exact execBody_keeps (callWithin_keeps limit room) .null f.declaration.body
  have hgrows := hbody.grows (m.begin.enter f.scope bindings)
  rw [enter_opened] at hgrows
  have hafter : (callWithin types limit (room + 1) f bindings).after m =
      (called (within f.scope bindings (f.plan.run types (callWithin types limit room)))).after m := by
    rw [after, run_call hl hd, after]
    simp only [bind, EStateM.bind]
    cases called (within f.scope bindings (f.plan.run types (callWithin types limit room))) m <;> rfl
  rw [hafter, after_called, after_within]
  exact Nat.lt_of_lt_of_eq hgrows (leave_opened _ m.begin.current).symm

/-- A call fails because the closure has expired, before it has begun, if and only if the scope of the closure is not
live. -/
theorem call_expired_iff (room : Nat) (f : Closure) (bindings : List (String × Value)) :
    callWithin types limit room f bindings m = .error (.ofFault (.scopeExpired f.name)) m ↔
      m.scopes.isLive f.scope = false := by
  refine ⟨fun h => ?_, run_call_expired room⟩
  cases hl : m.scopes.isLive f.scope with
  | false => rfl
  | true =>
    rcases Nat.lt_or_ge m.callDepth limit with hd | hd
    · cases room with
      | zero =>
        simp only [callWithin, bind, EStateM.bind, EvalM.isLive, hl] at h
        cases h
      | succ room =>
        have hlt : m.scopes.opened <
            ((callWithin types limit (room + 1) f bindings).after m).scopes.opened := opened_lt_of_call hl hd
        rw [after_error h] at hlt
        exact absurd hlt (Nat.lt_irrefl _)
    · rw [run_call_tooDeep room hl hd] at h
      cases h

theorem Interpreter.eq_of_run_error {i : Interpreter} {x : EvalM Value} {e : EvalError}
    (h : i.run x = (.error e, i)) : x i.machine = .error e i.machine := by
  unfold run at h
  cases hx : x i.machine with
  | ok v m =>
    rw [hx] at h
    cases h
  | error e' m =>
    rw [hx] at h
    obtain ⟨he, hi⟩ := Prod.mk.inj h
    cases he
    rw [congrArg machine hi.symm]

/-- Applying a mapper fails because it has expired only if its scope is not live. -/
theorem mapRow_expired {f : Closure} {row : Row} (h : (⟨types, limit, m⟩ : Interpreter).mapRow (.mapper f) row =
    (.error (.ofFault (.scopeExpired f.name)), ⟨types, limit, m⟩)) : m.scopes.isLive f.scope = false := by
  have hrun := Interpreter.eq_of_run_error h
  cases hk : Interpreter.keyBindings row f.declaration.parameters with
  | ok keys =>
    simp only [hk] at hrun
    exact (call_expired_iff limit f _).1 hrun
  | error e =>
    simp only [hk] at hrun
    obtain ⟨p, -, rfl⟩ := Interpreter.keyBindings_error hk
    cases (EStateM.Result.error.inj hrun).1

end

/-! ## Lifetimes -/

namespace Process

variable {types : Registry} {limit : Nat} {closed : Prop} {made : List Made} {c : Process}

/-- The scopes that are live in a process. -/
structure LiveScopes (c : Process) : Prop where
  /-- The global scope and those of the blocks and calls in progress. -/
  live : ∀ id, c.machine.scopes.isLive id = true ↔
    id = ScopeStore.global ∨ ∃ a ∈ c.activations, a.scope = id
  count : c.machine.scopes.liveCount = c.activations.length + 1
  /-- The scope of a block or call is inside a live one that was opened before. -/
  parent : ∀ a ∈ c.activations, ∃ p, c.machine.scopes.parent? a.scope = some (some p) ∧
    c.machine.scopes.isLive p = true ∧
      (p = ScopeStore.global ∨ ∃ b ∈ c.activations, b.scope = p ∧ b.number < a.number)

theorem Nested.liveScopes (h : c.Nested) : c.LiveScopes where
  live id := (h.stack.live_iff id).trans Activation.mem_scopes
  count := by
    rw [ScopeStore.liveCount_eq_length h.stack.live_iff h.stack.nodup, Activation.scopes, List.length_append,
      List.length_map]
    rfl
  parent a ha := by
    obtain ⟨p, hp, hlow⟩ := h.parent a ha
    exact ⟨p, hp, h.parent_live hp, hlow⟩

/-- A closure that has been made fails to be called for its own scope if and only if its home has ended. -/
theorem Reached.call_expired_iff (h : Reached types limit closed made c) (ho : c.machine.scopes.opened < 2 ^ 32)
    {r : Made} (hr : r ∈ made) (room : Nat) (bindings : List (String × Value)) :
    callWithin types limit room r.closure bindings c.machine =
        .error (.ofFault (.scopeExpired r.closure.name)) c.machine ↔ r.Finished c :=
  (QueryTemplate.call_expired_iff room r.closure bindings).trans (h.nested.isLive_iff ((h.located ho).2 r hr))

theorem Reached.steps {d : Process} (h : Reached types limit closed made c) (hs : Steps types limit c d) :
    ∃ made', Reached types limit closed made' d := by
  induction hs with
  | refl => exact ⟨made, h⟩
  | tail _ hs ih =>
    obtain ⟨made', h⟩ := ih
    exact ⟨_, h.step hs⟩

/-- The answer to a request is reached. -/
theorem Reached.perform {r : Except EvalError Outcome} {m : Machine}
    (h : Reached types limit closed made ⟨.ended r, [], m⟩) (q : Request) (hq : closed → q.Known made) :
    ∃ made' r', Reached types limit closed made'
      ⟨.ended r', [], ((⟨types, limit, m⟩ : Interpreter).perform q).2.machine⟩ := by
  obtain ⟨r', hs, -⟩ := (⟨types, limit, m⟩ : Interpreter).perform_steps q
  obtain ⟨made', h'⟩ := (h.request q hq).steps hs
  exact ⟨made', r', h'⟩

/-- Every closure that is held has been made. -/
structure Holds (made : List Made) (c : Process) : Prop where
  scopes : ∀ id s, c.machine.scopes.scope? id = some s → ∀ x ∈ s.bindings.entries, x.2.Known made
  fields : ∀ y ∈ c.machine.heap.objects.toList, ∀ x ∈ y.fields.entries, x.2.Known made
  result : ∀ o, c.focus = .ended (.ok o) → o.value.Known made

theorem Sound.holds (h : c.Sound made) : c.Holds made := by
  have hc := h.held _ _ (Made.among_link made)
  have hentries : ∀ {b : Bindings Value}, b.Matched (Value.Linked (Made.link made)) b →
      ∀ x ∈ b.entries, x.2.Known made := fun hb x hx => (List.forall₂_same.1 hb x hx).2
  refine ⟨fun id s hs => ?_, fun b hb => ?_, fun o ho => ?_⟩
  · have hscope := hc.machine.scopes.scope? id
    rw [hs] at hscope
    cases hscope with
    | some hscope => exact hentries hscope.bindings
  · obtain ⟨i, hi⟩ := List.mem_iff_getElem?.1 hb
    rw [Array.getElem?_toList] at hi
    have hobject := hc.machine.heap.objects (i := i) rfl
    rw [hi] at hobject
    cases hobject with
    | some hobject => exact hentries hobject.fields
  · have hfocus := hc.focus
    rw [ho] at hfocus
    cases hfocus with
    | ok ho => exact ho.value

theorem step_expired_iff {f : Closure} {bindings : List (String × Value)} (hf : c.focus = .doing (.call f bindings)) :
    Step types limit c ⟨.ended (.error (.ofFault (.scopeExpired f.name))), c.frames, c.machine⟩ ↔
      c.machine.scopes.isLive f.scope = false := by
  obtain ⟨focus, fs, m⟩ := c
  obtain rfl : focus = .doing (.call f bindings) := hf
  refine ⟨fun hs => ?_, fun hl => .expired hl⟩
  cases hs with
  | expired hl => exact hl

/-- In every state that is reached while templates run:

* The live scopes are the global one and one for each block or call in progress, each inside a live one that was opened
  before it.
* Looking for a name from the current scope never stops at a scope that is not live.
* Unless 2³² scopes have been opened, a call of a function that has been made, with as many arguments as it has
  parameters, fails because the function has expired if and only if the block or call that executed its declaration has
  ended. A function that is declared at top level does not expire.
* If neither bodies of host types nor the surrounding program make up closures, then all closures that are held or
  called have been made, and a mapper that is applied to a row has not expired. -/
theorem scopes_and_closures_live (h : Reached types limit closed made c) :
    c.LiveScopes ∧
    (∀ name, ∃ e, c.machine.scopes.Walk name c.machine.current e ∧
      c.machine.scopes.binder? c.machine.current name = e.binder? ∧ ∀ id, e ≠ .released id) ∧
    (c.machine.scopes.opened < 2 ^ 32 →
      (∀ r ∈ made, ∀ (room : Nat) (arguments : List Value), arguments.length = r.closure.arity →
        (callValue types (callWithin types limit room) (.function r.closure) arguments c.machine =
          .error (.ofFault (.scopeExpired r.closure.name)) c.machine ↔ r.Finished c)) ∧
      (∀ r ∈ made, r.home = none → c.machine.scopes.isLive r.closure.scope = true) ∧
      (types.Honest → closed → c.Holds made ∧
        (∀ f bindings, c.focus = .doing (.call f bindings) → ∃ r ∈ made, r.closure = f ∧
          (Step types limit c ⟨.ended (.error (.ofFault (.scopeExpired f.name))), c.frames, c.machine⟩ ↔
            r.Finished c)) ∧
        (∀ r ∈ made, r.isMapper = true → ∀ row : Row,
          (⟨types, limit, c.machine⟩ : Interpreter).mapRow (.mapper r.closure) row ≠
            (.error (.ofFault (.scopeExpired r.closure.name)), ⟨types, limit, c.machine⟩)))) := by
  have hnested := h.nested
  refine ⟨hnested.liveScopes, hnested.walk hnested.current_live, fun ho => ?_⟩
  have hexpired : ∀ r ∈ made, (c.machine.scopes.isLive r.closure.scope = false ↔ r.Finished c) := fun r hr =>
    hnested.isLive_iff ((h.located ho).2 r hr)
  have htop : ∀ r ∈ made, r.home = none → c.machine.scopes.isLive r.closure.scope = true := by
    intro r hr hhome
    rw [← Bool.not_eq_false, hexpired r hr]
    rintro ⟨n, hn, -⟩
    rw [hhome] at hn
    cases hn
  refine ⟨fun r hr room arguments ha => ?_, htop, fun htypes hclosed => ⟨(h.sound htypes hclosed).holds, ?_, ?_⟩⟩
  · rw [callValue, if_pos ha]
    exact h.call_expired_iff ho hr room _
  · intro f bindings hf
    obtain ⟨r, hr, rfl⟩ := (h.sound htypes hclosed).called hf
    exact ⟨r, hr, rfl, (step_expired_iff hf).trans (hexpired r hr)⟩
  · intro r hr hmapper row hrow
    have hlive := htop r hr (((h.sound htypes hclosed).bodies r hr).2 hmapper)
    rw [mapRow_expired hrow] at hlive
    cases hlive

/-- What a template leaves in a new interpreter is reached. -/
theorem Reached.of_compile (types : Registry) (limit : Nat) (closed : Prop) {source : String} {p : Program}
    (hp : compile source = .ok p) : ∃ made r, Reached types limit closed made
      ⟨.ended r, [], ((Interpreter.fresh types limit .empty .silent).execute p).2.machine⟩ := by
  have hparse : ∃ tokens, parse tokens = .ok p := by
    unfold compile at hp
    split at hp
    · cases hp
    next tokens _ =>
      split at hp
      · cases hp
      next hparse =>
        cases hp
        exact ⟨tokens, hparse⟩
  have hheap : Heap.Known [] .empty := ⟨fun h => by cases h; exact .none, fun _ => rfl⟩
  have hfresh : Reached types limit closed [] ⟨.ended (.ok (.done .null)), [],
      (Interpreter.fresh types limit .empty .silent).machine⟩ :=
    .fresh (List.forall_mem_nil _) (fun _ => hheap) .silent 0
  exact hfresh.perform (.execute p) fun _ => hparse

/-- A function that is bound to a name and no longer live is one whose home has ended. -/
theorem Reached.finished (h : Reached types limit closed made c) (htypes : types.Honest) (hclosed : closed)
    (ho : c.machine.scopes.opened < 2 ^ 32) {f : Closure} (hlive : c.machine.scopes.isLive f.scope = false)
    {id : ScopeId} {s : Scope Value} (hs : c.machine.scopes.scope? id = some s) {name : String}
    (hf : (name, .function f) ∈ s.bindings.entries) : ∃ r ∈ made, r.closure = f ∧ r.Finished c := by
  cases (h.sound htypes hclosed).holds.scopes id s hs _ hf with
  | plain h => cases h
  | function hheld _ =>
    obtain ⟨r, hr, rfl, -⟩ := hheld
    exact ⟨r, hr, rfl, (h.nested.isLive_iff ((h.located ho).2 r hr)).1 hlive⟩

/-- A template leaves a function behind that it has declared in a block and kept in a variable outside. -/
theorem function_left_behind :
    let f : Closure := ⟨0, ⟨⟨"f", ⟨1, 19⟩⟩, [], []⟩, ⟨1, 0⟩⟩
    ∃ p made r, compile "var g = null \x7b fun f() \x7b\x7d g = f \x7d" = .ok p ∧
      let i := ((Interpreter.fresh .empty 8 .empty .silent).execute p).2
      let c : Process := ⟨.ended r, [], i.machine⟩
      i.lookup "g" = .ok (.function f) ∧ i.machine.scopes.opened < 2 ^ 32 ∧ Reached .empty 8 True made c ∧
        ∃ r ∈ made, r.closure = f ∧ r.Finished c := by
  intro f
  let p : Program := [.define ⟨"g", ⟨1, 4⟩⟩ (.literal .null ⟨1, 8⟩),
    .block [.function ⟨"f", ⟨1, 19⟩⟩ [] [], .expr (.assign ⟨"g", ⟨1, 26⟩⟩ (.name ⟨"f", ⟨1, 30⟩⟩))]]
  have hp : compile "var g = null \x7b fun f() \x7b\x7d g = f \x7d" = .ok p := by cbv
  obtain ⟨i, hi, hlookup, hopened, hlive, hscope⟩ : ∃ i, i = ((Interpreter.fresh .empty 8 .empty .silent).execute p).2 ∧
      i.lookup "g" = .ok (.function f) ∧ i.machine.scopes.opened < 2 ^ 32 ∧ i.machine.scopes.isLive f.scope = false ∧
      i.machine.scopes.scope? ScopeStore.global = some ⟨none, ⟨[("g", .function f)]⟩⟩ :=
    ⟨_, rfl, rfl, by decide +kernel, by decide +kernel, rfl⟩
  obtain ⟨made, r, h⟩ := Reached.of_compile .empty 8 True hp
  rw [← hi] at h
  refine ⟨p, made, r, hp, ?_⟩
  rw [← hi]
  have hfinished := h.finished (fun _ _ => Bodies.links_empty) trivial hopened hlive hscope List.mem_cons_self
  exact ⟨hlookup, hopened, h, hfinished⟩

/-- Such a function has expired when the block has ended. -/
theorem kept_function_expires : ∃ (made : List Made) (c : Process), Reached .empty 8 True made c ∧
    ∃ r ∈ made, r.Finished c ∧ callValue .empty (callWithin .empty 8 8) (.function r.closure) [] c.machine =
      .error (.ofFault (.scopeExpired r.closure.name)) c.machine := by
  obtain ⟨p, made, r, -, -, hopened, h, s, hs, hf, hfinished⟩ := function_left_behind
  have harity : ([] : List Value).length = s.closure.arity := by rw [hf]; rfl
  obtain ⟨-, -, hcalls⟩ := scopes_and_closures_live h
  exact ⟨made, _, h, s, hs, hfinished, ((hcalls hopened).1 s hs 8 [] harity).2 hfinished⟩

/-- What bodies of host types and objects hold cannot be left out. A function of a block that has ended is called in a
later run, where a body of a host type or the field of an object has kept it: there its handle is that of the block in
which it is called. And if the surrounding program opens a scope of its own around a template, a function that is
declared at top level expires with that scope. -/
theorem kept_function_called_later :
    let f : Closure := ⟨0, ⟨⟨"f", ⟨1, 19⟩⟩, [], []⟩, ⟨1, 0⟩⟩
    let store : HostType := ⟨"lib.Store", ["kept"], [], [⟨"take", [], true, 0⟩]⟩
    let types := Registry.ofList (.ofProgram (fun _ _ _ => throw "none") fun _ _ _ => pure (.function f)) [store]
    let heap : Heap := ⟨((HostObject.new store).set? "kept" (.function f)).toArray⟩
    let fresh (types : Registry) (heap : Heap) := Interpreter.fresh types 8 heap .silent
    let answer (i : Interpreter) (p : Program) := (i.execute p).1.map Value.display
    (∃ p made r, compile "var g = null \x7b fun f() \x7b\x7d g = f \x7d" = .ok p ∧
      let i := ((fresh .empty .empty).execute p).2
      let c : Process := ⟨.ended r, [], i.machine⟩
      i.lookup "g" = .ok (.function f) ∧ i.machine.scopes.opened < 2 ^ 32 ∧ Reached .empty 8 True made c ∧
        ∃ r ∈ made, r.closure = f ∧ r.Finished c) ∧
    (∃ p, compile "import lib.Store; \x7b Store.take()() \x7d" = .ok p ∧ answer (fresh types .empty) p = .ok "null") ∧
    (∃ p, compile "var g = store.kept \x7b g() \x7d" = .ok p ∧
      answer ((fresh .empty heap).define "store" (.object ⟨store, 0⟩)) p = .ok "null") ∧
    ∃ p q, compile "fun f() \x7b\x7d g = f" = .ok p ∧ compile "g()" = .ok q ∧
      let around := ((fresh .empty .empty).define "g" .null).enter ScopeStore.global []
      answer ((around.execute p).2.leave ScopeStore.global) q = .error ⟨.scopeExpired "f", ⟨1, 1⟩⟩ := by
  intro f store types heap fresh answer
  refine ⟨function_left_behind, ?body, ?object, ?around⟩
  case body =>
    exact ⟨[.importType "lib.Store" ⟨"Store", ⟨1, 11⟩⟩, .block [.expr (.call (.callMethod (.name ⟨"Store", ⟨1, 20⟩⟩)
      ⟨"take", ⟨1, 26⟩⟩ []) [] ⟨1, 32⟩)]], by cbv, by decide +kernel⟩
  case object =>
    exact ⟨[.define ⟨"g", ⟨1, 4⟩⟩ (.getField (.name ⟨"store", ⟨1, 8⟩⟩) ⟨"kept", ⟨1, 14⟩⟩),
      .block [.expr (.call (.name ⟨"g", ⟨1, 21⟩⟩) [] ⟨1, 22⟩)]], by cbv, by decide +kernel⟩
  case around =>
    exact ⟨[.function ⟨"f", ⟨1, 4⟩⟩ [] [], .expr (.assign ⟨"g", ⟨1, 11⟩⟩ (.name ⟨"f", ⟨1, 15⟩⟩))],
      [.expr (.call (.name ⟨"g", ⟨1, 0⟩⟩) [] ⟨1, 1⟩)], by cbv, by cbv, by decide +kernel⟩

end Process

end QueryTemplate
