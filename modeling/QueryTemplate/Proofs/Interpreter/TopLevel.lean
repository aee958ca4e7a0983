import QueryTemplate.Proofs.Interpreter.Everywhere

/-!
# Mappers are made at top level

The grammar has declarations of mappers among the statements of a template only, not in blocks or bodies. So the plan of
a template makes mappers only while no block or call is in progress (`programPlan_shaped`), and every step of a process
keeps to that, as long as the bodies of the closures that it calls have the shape that the grammar gives them
(`Process.Shaped.step`).
-/

namespace QueryTemplate

open EvalM

/-! ## Plans -/

/-- Mappers are declared outside of blocks and calls only, and the bodies of declarations have the shape that the
grammar gives them. -/
def Action.Shaped (inside : Bool) : Action → Prop
  | .function d => Stmt.AllShaped d.body
  | .mapper d => inside = false ∧ Stmt.AllShaped d.body
  | _ => True

/-- Every action of the plan has the shape of its place, inside a block or call or outside. -/
abbrev Plan.Shaped : Bool → Plan → Prop := Plan.Everywhere Action.Shaped

theorem Action.OfExpr.shaped {inside : Bool} {a : Action} (h : a.OfExpr) : a.Shaped inside := by
  cases h <;> trivial

theorem exprPlan_shaped {inside : Bool} (e : Expr) : e.plan.Shaped inside :=
  exprPlan_everywhere (fun _ ha => ha.shaped) e

mutual

/-- A statement that the grammar allows at its place does what is allowed there. -/
theorem stmtPlan_shaped {inside : Bool} {s : Stmt} (h : s.Shaped) (hl : inside = true → s.isLocal = true) :
    s.plan.Shaped inside := by
  match s with
  | .expr e =>
    rw [Stmt.plan]
    exact exprPlan_shaped e
  | .define name value =>
    rw [Stmt.plan]
    exact (exprPlan_shaped value).andThen fun _ => .act trivial
  | .print e =>
    rw [Stmt.plan]
    exact (exprPlan_shaped e).andThen fun _ => .act trivial
  | .ifThen condition thenBranch =>
    rw [Stmt.Shaped] at h
    rw [Stmt.plan]
    have hthen : thenBranch.plan.Shaped inside := stmtPlan_shaped h.2 fun _ => Stmt.isLocal_of_isPlain h.1
    exact (exprPlan_shaped condition).andThen fun _ => .conditionPlan (fun _ ha => ha.shaped) hthen .done
  | .ifElse condition thenBranch elseBranch =>
    rw [Stmt.Shaped] at h
    rw [Stmt.plan]
    have hthen : thenBranch.plan.Shaped inside := stmtPlan_shaped h.1.2.2 fun _ => Stmt.isLocal_of_isPlain h.1.1
    have helse : elseBranch.plan.Shaped inside := stmtPlan_shaped h.2.2 fun _ => Stmt.isLocal_of_isPlain h.2.1
    exact (exprPlan_shaped condition).andThen fun _ => .conditionPlan (fun _ ha => ha.shaped) hthen helse
  | .block body =>
    rw [Stmt.Shaped] at h
    rw [Stmt.plan]
    exact .block (bodyPlan_shaped .null h)
  | .function name parameters body =>
    rw [Stmt.Shaped] at h
    rw [Stmt.plan]
    exact .act h
  | .mapper name parameters body =>
    rw [Stmt.Shaped] at h
    rw [Stmt.plan]
    cases inside with
    | false => exact .act ⟨rfl, h⟩
    | true => exact nomatch hl rfl
  | .ret none p =>
    rw [Stmt.plan]
    exact .done
  | .ret (some value) p =>
    rw [Stmt.plan]
    exact (exprPlan_shaped value).andThen fun _ => .done
  | .importType path localName =>
    rw [Stmt.plan]
    exact .placed (.act trivial)

/-- So do the statements of a block or body. -/
theorem bodyPlan_shaped {inside : Bool} (last : Value) {ss : List Stmt} (h : Stmt.AllShaped ss) :
    (Stmt.plans last ss).Shaped inside := by
  match ss with
  | [] =>
    rw [Stmt.plans]
    exact .done
  | s :: ss =>
    rw [Stmt.AllShaped] at h
    rw [Stmt.plans]
    refine .seq (stmtPlan_shaped h.1.2 fun _ => h.1.1) fun o => ?_
    cases o with
    | done v => exact bodyPlan_shaped v h.2
    | returned v => exact .done

end

/-- And so do the statements of a template, outside of blocks and calls. -/
theorem programPlan_shaped (last : Value) {p : Program} (h : ∀ s ∈ p, s.Shaped) :
    (Stmt.plans last p).Shaped false := by
  induction p generalizing last with
  | nil =>
    rw [Stmt.plans]
    exact .done
  | cons s p ih =>
    rw [Stmt.plans]
    refine .seq (stmtPlan_shaped (h s List.mem_cons_self) nofun) fun o => ?_
    cases o with
    | done v => exact ih v fun t ht => h t (List.mem_cons_of_mem _ ht)
    | returned v => exact .done

/-! ## Processes -/

/-- What is done and is to be done has the shape of its place. -/
abbrev Process.Shaped (c : Process) : Prop := c.Everywhere Action.Shaped

theorem Process.Shaped.step {types : Registry} {limit : Nat} {c d : Process} (h : c.Shaped)
    (hcall : ∀ f bindings, c.focus = .doing (.call f bindings) → Stmt.AllShaped f.declaration.body)
    (hs : Step types limit c d) : d.Shaped :=
  Everywhere.step h (fun f bindings hf => bodyPlan_shaped .null (hcall f bindings hf)) hs

end QueryTemplate
