import QueryTemplate.Proofs.Interpreter.Everywhere
import QueryTemplate.Proofs.Value.Combined
import QueryTemplate.Proofs.Value.Operators

/-!
# Where panics come from

A text that is repeated may get longer than any text can be, and the scales of two decimals may not allow a result. An
operator panics then, and in no other case (`BinaryOp.apply_eq_panic_iff`). Nothing else panics: an evaluation that ends
in a panic has come to such an operator (`Interpreter.panics_by_operator`).
-/

namespace QueryTemplate

open Process

/-! ## Operators -/

/-- How often a text is repeated by the value. -/
def Value.count? : Value → Option Int
  | .int k => some k.toInt
  | .long k => some k.toInt
  | _ => none

/-- The operator has no result that could be held: too long a text, or a decimal whose scale leaves its bits. -/
def BinaryOp.Panics (op : BinaryOp) (v w : Value) : Panic → Prop
  | .capacityOverflow => op = .mul ∧ ∃ (s : String) (n : Nat), v = .string s ∧ w.count? = some (n : Int) ∧
      Value.textCapacity < s.utf8ByteSize * n
  | .scaleOverflow => ∃ a b : Number, v = .number a ∧ w = .number b ∧
      (NumericKind.promote a.kind b.kind).Panics op a b

theorem Value.repeated?_eq_none_iff {s : String} {n : Nat} :
    repeated? s n = none ↔ textCapacity < s.utf8ByteSize * n := by
  unfold repeated?
  split
  next h =>
    have hs : s = "" := String.isEmpty_iff.1 h
    subst hs
    exact iff_of_false nofun (by simp)
  next =>
    split
    next h => exact iff_of_false nofun (Nat.not_lt.2 h)
    next h => exact iff_of_true rfl (Nat.lt_of_not_le h)

theorem Value.repeatText_panic_iff {s : String} {k : Int} {f : EvalFault} (hf : f.isPanic = false) (p : Panic) :
    repeatText s k f = .error (.panic p) ↔
      p = .capacityOverflow ∧ ∃ n : Nat, k = n ∧ textCapacity < s.utf8ByteSize * n := by
  unfold repeatText
  split
  next hk =>
    obtain ⟨n, rfl⟩ := Int.eq_ofNat_of_zero_le hk
    rw [Int.toNat_natCast]
    cases hr : repeated? s n with
    | some text =>
      refine iff_of_false nofun ?_
      rintro ⟨-, n', hn, hlt⟩
      obtain rfl := Int.ofNat.inj hn
      rw [repeated?_eq_none_iff.2 hlt] at hr
      cases hr
    | none =>
      have hlt := repeated?_eq_none_iff.1 hr
      constructor
      · intro h
        cases h
        exact ⟨rfl, n, rfl, hlt⟩
      · rintro ⟨rfl, -⟩
        rfl
  next hk =>
    refine iff_of_false (fun h => ?_) ?_
    · cases h
      cases hf
    · rintro ⟨-, n, rfl, -⟩
      exact hk (Int.natCast_nonneg n)

namespace BinaryOp

variable {op : BinaryOp} {v w : Value} {p : Panic}

theorem applyOther_panic_iff : op.applyOther v w = .error (.panic p) ↔ p = .capacityOverflow ∧ op.Panics v w p := by
  have hrepeat : ∀ (s : String) (k : Int) (f : EvalFault), f.isPanic = false → w.count? = some k →
      (Value.repeatText s k f = .error (.panic p) ↔ p = .capacityOverflow ∧ mul.Panics (.string s) w p) := by
    intro s k f hf hcount
    rw [Value.repeatText_panic_iff hf]
    refine and_congr_right ?_
    rintro rfl
    simp [Panics, hcount]
  have hordered : ∀ b : Bool, w.count? = none →
      ((if op.isOrdering then .ok (.bool b) else .error (op.unsupported v w) : Except EvalFault Value) =
        .error (.panic p) ↔ p = .capacityOverflow ∧ op.Panics v w p) := by
    intro b hcount
    refine iff_of_false (fun h => ?_) ?_
    · split at h <;> cases h
    · rintro ⟨rfl, -, _, _, -, h, -⟩
      rw [hcount] at h
      cases h
  unfold applyOther
  split
  next s k => exact hrepeat s _ _ rfl rfl
  next s k => exact hrepeat s _ _ rfl rfl
  next a b => exact hordered _ rfl
  next a b => exact hordered _ rfl
  next _ _ hint hlong =>
    refine iff_of_false nofun ?_
    rintro ⟨rfl, rfl, s, n, rfl, hcount, -⟩
    unfold Value.count? at hcount
    split at hcount
    · exact hint _ _ rfl rfl rfl
    · exact hlong _ _ rfl rfl rfl
    · cases hcount

/-- An operator panics just where it has no result that can be held. -/
theorem apply_eq_panic_iff : op.apply v w = .error (.panic p) ↔ op.Panics v w p := by
  by_cases hnumbers : ∃ a b, v = .number a ∧ w = .number b
  · obtain ⟨a, b, rfl, rfl⟩ := hnumbers
    rw [apply_panic_iff]
    cases p <;> simp [Panics]
  have hpanics : op.Panics v w p ↔ p = .capacityOverflow ∧ op.Panics v w p := by
    refine ⟨fun h => ⟨?_, h⟩, And.right⟩
    cases p with
    | capacityOverflow => rfl
    | scaleOverflow =>
      obtain ⟨a, b, hv, hw, -⟩ := h
      exact absurd ⟨a, b, hv, hw⟩ hnumbers
  have hunequal : op.applyUnequal v w = .error (.panic p) ↔ op.Panics v w p := by
    unfold applyUnequal
    split
    next hjoin =>
      refine iff_of_false nofun fun h => ?_
      obtain ⟨rfl, hmul, -⟩ := hpanics.1 h
      rw [hjoin.1] at hmul
      cases hmul
    next =>
      split
      next hv hw =>
        obtain ⟨a, ha, -⟩ := Option.map_eq_some_iff.1 hv
        obtain ⟨b, hb, -⟩ := Option.map_eq_some_iff.1 hw
        exact absurd ⟨a, b, Value.eq_number ha, Value.eq_number hb⟩ hnumbers
      next => rw [applyOther_panic_iff, ← hpanics]
  cases op with
  | eq | ne =>
    refine iff_of_false nofun fun h => ?_
    obtain ⟨rfl, hmul, -⟩ := hpanics.1 h
    cases hmul
  | _ => exact hunequal

end BinaryOp

theorem UnaryOp.not_panic {op : UnaryOp} {v : Value} {f : EvalFault} (h : op.apply v = .error f) :
    f.isPanic = false := by
  cases op with
  | not =>
    cases v with
    | bool => cases h
    | _ =>
      cases h
      rfl
  | neg =>
    cases v with
    | number a =>
      rcases neg_error_iff.1 ⟨f, h⟩ with rfl | rfl
      · cases h
        rfl
      · cases h
        rfl
    | _ =>
      cases h
      rfl

theorem Literal.not_panic {l : Literal} {f : EvalFault} (h : l.value = .error f) : f.isPanic = false := by
  cases l with
  | int n =>
    simp only [value] at h
    split at h <;> cases h
  | bigInt digits =>
    simp only [value] at h
    split at h <;> cases h
    rfl
  | _ => cases h

/-! ## Plans -/

/-- If the action panics, then it is an operator that does. -/
def Action.Calm : Action → Prop
  | yield r => ∀ p, r = .error (.panic p) → ∃ (op : BinaryOp) (v w : Value), r = op.apply v w
  | _ => True

/-- So do all actions of the plan. -/
abbrev Plan.Calm (x : Plan) : Prop := ∀ inside, x.Everywhere (fun _ a => a.Calm) inside

theorem Action.OfExpr.calm {a : Action} (h : a.OfExpr) : a.Calm := by
  cases h with
  | literal l =>
    intro p hp
    cases Literal.not_panic hp
  | unary op v =>
    intro p hp
    cases UnaryOp.not_panic hp
  | binary op v w => exact fun p _ => ⟨op, v, w, rfl⟩
  | fail h =>
    intro p hp
    cases hp
    cases h
  | _ => trivial

mutual

theorem stmtPlan_calm (s : Stmt) : s.plan.Calm := by
  intro inside
  have hP : ∀ a : Action, a.OfExpr → a.Calm := fun _ ha => ha.calm
  cases s with
  | expr e =>
    rw [Stmt.plan]
    exact exprPlan_everywhere hP e
  | define name value =>
    rw [Stmt.plan]
    exact (exprPlan_everywhere hP value).andThen fun _ => .act trivial
  | print e =>
    rw [Stmt.plan]
    exact (exprPlan_everywhere hP e).andThen fun _ => .act trivial
  | ifThen condition thenBranch =>
    rw [Stmt.plan]
    exact (exprPlan_everywhere hP condition).andThen fun _ => .conditionPlan hP (stmtPlan_calm thenBranch inside) .done
  | ifElse condition thenBranch elseBranch =>
    rw [Stmt.plan]
    exact (exprPlan_everywhere hP condition).andThen fun _ =>
      .conditionPlan hP (stmtPlan_calm thenBranch inside) (stmtPlan_calm elseBranch inside)
  | block body =>
    rw [Stmt.plan]
    exact .block (stmtPlans_calm .null body true)
  | function | mapper =>
    rw [Stmt.plan]
    exact .act trivial
  | ret value p =>
    cases value with
    | none =>
      rw [Stmt.plan]
      exact .done
    | some value =>
      rw [Stmt.plan]
      exact (exprPlan_everywhere hP value).andThen fun _ => .done
  | importType path localName =>
    rw [Stmt.plan]
    exact .placed (.act trivial)

theorem stmtPlans_calm (last : Value) (ss : List Stmt) : (Stmt.plans last ss).Calm := by
  intro inside
  cases ss with
  | nil =>
    rw [Stmt.plans]
    exact .done
  | cons s ss =>
    rw [Stmt.plans]
    refine .seq (stmtPlan_calm s inside) fun o => ?_
    cases o with
    | done v => exact stmtPlans_calm v ss inside
    | returned v => exact .done

end

/-- Requests are answered by plans of trees. -/
theorem Request.plan_calm (q : Request) : q.plan.Calm := by
  intro inside
  have hP : ∀ a : Action, a.OfExpr → a.Calm := fun _ ha => ha.calm
  cases q with
  | execute program => exact stmtPlans_calm .null program inside
  | evaluate e => exact exprPlan_everywhere hP e
  | call callee arguments => exact .callPlan hP callee arguments
  | mapRow mapper row =>
    cases mapper with
    | mapper f =>
      simp only [plan]
      cases hk : Interpreter.keyBindings row f.declaration.parameters with
      | ok keys => exact .call
      | error e =>
        refine .placed (.act (hP _ (.fail ?_)))
        obtain ⟨p, -, rfl⟩ := Interpreter.keyBindings_error hk
        rfl
    | _ => exact .act (hP _ (.fail rfl))

/-! ## Processes -/

section

variable {types : Registry} {limit : Nat} {c d : Process} {e : EvalError} {p : Panic}

/-- A process that is about to do so panics. -/
def Process.Panics (c : Process) (p : Panic) : Prop :=
  ∃ (op : BinaryOp) (v w : Value), c.focus = .doing (.act (.yield (op.apply v w))) ∧ op.Panics v w p

/-- A step leads to a panic from that panic, or by an operator. -/
theorem Process.Step.panic (hs : Step types limit c d) (hc : c.Everywhere fun _ a => a.Calm)
    (hd : d.focus = .ended (.error e)) (hp : e.fault = .panic p) :
    c.Panics p ∨ ∃ e', c.focus = .ended (.error e') ∧ e'.fault = .panic p := by
  cases hs with
  | @act a fs m =>
    left
    simp only [EvalM.outcome, bind, EStateM.bind] at hd
    cases hr : a.run types m with
    | ok v m' =>
      rw [hr] at hd
      cases hd
    | error e' m' =>
      rw [hr] at hd
      cases hd
      obtain ⟨fault, rfl, hfault⟩ := Action.run_error hr
      obtain rfl : fault = .panic p := hp
      obtain rfl := hfault.resolve_left nofun
      cases hc.focus _ rfl with
      | act hcalm =>
        obtain ⟨op, v, w, happly⟩ := hcalm p rfl
        exact ⟨op, v, w, by rw [happly], BinaryOp.apply_eq_panic_iff.1 happly.symm⟩
  | expired | tooDeep =>
    cases hd
    cases hp
  | giveUp =>
    cases hd
    exact .inr ⟨e, rfl, hp⟩
  | @place r position =>
    cases r with
    | ok o => cases hd
    | error e' =>
      cases hd
      exact .inr ⟨e', rfl, (e'.fault_placed position).symm.trans hp⟩
  | @leaveBlock r =>
    cases hd
    exact .inr ⟨e, rfl, hp⟩
  | @leaveCall r =>
    cases r with
    | ok o => cases hd
    | error e' =>
      cases hd
      exact .inr ⟨_, rfl, hp⟩
  | done | seq | placed | block | call | goOn => cases hd

theorem Process.Everywhere.calm_step (h : c.Everywhere fun _ a => a.Calm) (hs : Step types limit c d) :
    d.Everywhere fun _ a => a.Calm := h.step (fun f _ _ => stmtPlans_calm .null f.declaration.body true) hs

/-- Steps lead to a panic by an operator. -/
theorem Process.Steps.panic (hs : Steps types limit c d) (hc : c.Everywhere fun _ a => a.Calm)
    (hstart : ∀ r, c.focus ≠ .ended r) (hd : d.focus = .ended (.error e)) (hp : e.fault = .panic p) :
    ∃ b, Steps types limit c b ∧ b.Panics p := by
  have hcalm : ∀ {b}, Steps types limit c b → b.Everywhere fun _ a => a.Calm := by
    intro b hb
    induction hb with
    | refl => exact hc
    | tail _ hs ih => exact ih.calm_step hs
  induction hs generalizing e with
  | refl => exact absurd hd (hstart _)
  | tail hb hs ih =>
    rcases hs.panic (hcalm hb) hd hp with h | ⟨e', he', hp'⟩
    · exact ⟨_, hb, h⟩
    · exact ih he' hp'

end

/-- An evaluation that ends in a panic has come to an operator that panics. -/
theorem Interpreter.panics_by_operator {i : Interpreter} {q : Request} {e : EvalError} {p : Panic}
    (h : (i.perform q).1 = .error e) (hp : e.fault = .panic p) :
    ∃ c, Steps i.types i.callLimit (start q.plan i.machine) c ∧ c.Panics p := by
  obtain ⟨r, hs, hr⟩ := i.perform_steps q
  rw [h] at hr
  cases r with
  | ok o => cases hr
  | error e' =>
    cases hr
    have hcalm : (start q.plan i.machine).Everywhere fun _ a => a.Calm :=
      ⟨fun x hx => by cases hx; exact q.plan_calm _, trivial⟩
    exact Steps.panic hs hcalm nofun rfl hp

end QueryTemplate
