import QueryTemplate.Tree.StmtParser

/-!
# What the readers of expressions yield

`Parsed.Yields` forgets the bound that the type of a reading carries. For each reader of expressions one equivalence
says what it yields in terms of what the readers that it calls yield (`parseExpr_yields`, …), so that no later proof
opens a reader.
-/

namespace QueryTemplate

namespace Parsed

variable {α β : Type} {m n : Nat}

/-- Reading yields a value and stops at a cursor. -/
def Yields (p : Parsed α n) (a : α) (d : Cursor) : Prop := ∃ h, p = .ok a d h

theorem Yields.nearer {p : Parsed α n} {a : α} {d : Cursor} (h : p.Yields a d) : d.remaining < n := h.1

theorem Yields.unique {p : Parsed α n} {a b : α} {d e : Cursor} (h₁ : p.Yields a d) (h₂ : p.Yields b e) :
    a = b ∧ d = e := by
  obtain ⟨_, rfl⟩ := h₁
  obtain ⟨_, h₂⟩ := h₂
  cases h₂
  exact ⟨rfl, rfl⟩

@[simp] theorem yields_ok {a b : α} {d e : Cursor} {h : d.remaining < n} :
    (ok a d h : Parsed α n).Yields b e ↔ b = a ∧ e = d := by
  constructor
  · rintro ⟨_, he⟩
    cases he
    exact ⟨rfl, rfl⟩
  · rintro ⟨rfl, rfl⟩
    exact ⟨h, rfl⟩

@[simp] theorem yields_error {f : ParseError} {a : α} {d : Cursor} : ¬(error f : Parsed α n).Yields a d := by
  rintro ⟨_, he⟩
  cases he

theorem yields_andThen {p : Parsed α m} {f : (a : α) → (d : Cursor) → d.remaining < m → Parsed β n} {b : β}
    {e : Cursor} : (p.andThen f).Yields b e ↔ ∃ a d, ∃ h : d.remaining < m, p.Yields a d ∧ (f a d h).Yields b e := by
  constructor
  · intro h
    cases p with
    | ok a d nearer => exact ⟨a, d, nearer, ⟨nearer, rfl⟩, h⟩
    | error f => exact absurd h yields_error
  · rintro ⟨a, d, _, ⟨_, rfl⟩, h⟩
    exact h

@[simp] theorem yields_map {p : Parsed α m} {f : α → β} {h : m ≤ n} {b : β} {e : Cursor} :
    (p.map f h).Yields b e ↔ ∃ a, p.Yields a e ∧ b = f a := by
  rw [map, yields_andThen]
  constructor
  · rintro ⟨a, d, _, hp, hb⟩
    obtain ⟨rfl, rfl⟩ := yields_ok.1 hb
    exact ⟨a, hp, rfl⟩
  · rintro ⟨a, hp, rfl⟩
    exact ⟨a, e, hp.nearer, hp, yields_ok.2 ⟨rfl, rfl⟩⟩

end Parsed

open Parsed

/-! ## Punctuation and names -/

theorem expect_yields {what : Landmark} {c d : Cursor} {u : Unit} :
    (c.expect what).Yields u d ↔ c.kind = what.kind ∧ d = c.advance := by
  unfold Cursor.expect
  split
  · simp [*]
  · simp [*]

theorem expectName_yields {role : NameRole} {c d : Cursor} {name : Ident} :
    (c.expectName role).Yields name d ↔ c.kind = .identifier ∧ name = c.ident ∧ d = c.advance := by
  unfold Cursor.expectName
  split
  · simp [*]
  · simp [*]

/-! ## Expressions -/

theorem parseExpr_yields {c d : Cursor} {e : Expr} :
    (parseExpr c).Yields e d ↔ ∃ target x, (parseOperation 1 c).Yields target x ∧
      (x.kind ≠ .equal ∧ e = target ∧ d = x ∨
        x.kind = .equal ∧ ∃ name value, target = .name name ∧ (parseExpr x.advance).Yields value d ∧
          e = .assign name value) := by
  rw [parseExpr, yields_andThen]
  constructor
  · rintro ⟨target, x, hx, ht, h⟩
    refine ⟨target, x, ht, ?_⟩
    split at h
    next hk =>
      obtain ⟨value, y, _, hv, h⟩ := yields_andThen.1 h
      split at h
      · obtain ⟨rfl, rfl⟩ := yields_ok.1 h
        exact .inr ⟨hk, _, value, rfl, hv, rfl⟩
      · exact absurd h yields_error
    next hk =>
      obtain ⟨rfl, rfl⟩ := yields_ok.1 h
      exact .inl ⟨hk, rfl, rfl⟩
  · rintro ⟨target, x, ht, ⟨hk, rfl, rfl⟩ | ⟨hk, name, value, rfl, hv, rfl⟩⟩
    · exact ⟨e, d, ht.nearer, ht, by simp [hk]⟩
    · refine ⟨_, x, ht.nearer, ht, ?_⟩
      simp only [hk, ↓reduceIte]
      exact yields_andThen.2 ⟨value, d, hv.nearer, hv, by simp⟩

theorem parseOperation_yields {level : Nat} {c d : Cursor} {e : Expr} :
    (parseOperation level c).Yields e d ↔ ∃ left x, ∃ hx : x.remaining < c.remaining, (parseOperand c).Yields left x ∧
      (parseOperatorsFrom level left x hx).Yields e d := by
  rw [parseOperation, yields_andThen]

theorem parseOperatorsFrom_yields {n level : Nat} {left e : Expr} {c d : Cursor} {hc : c.remaining < n} :
    (parseOperatorsFrom level left c hc).Yields e d ↔
      (∀ op, Operator.ofKind? c.kind = some op → op.level < level) ∧ e = left ∧ d = c ∨
      ∃ op right x, ∃ hx : x.remaining < n, Operator.ofKind? c.kind = some op ∧ level ≤ op.level ∧
        (parseOperation (op.level + 1) c.advance).Yields right x ∧
        (parseOperatorsFrom level (op.node left right c.current.position) x hx).Yields e d := by
  rw [parseOperatorsFrom]
  cases ho : Operator.ofKind? c.kind with
  | none => simp
  | some op =>
    simp only [Option.some.injEq, forall_eq']
    by_cases hl : level ≤ op.level
    · have hn : ¬op.level < level := by omega
      rw [if_pos hl, yields_andThen]
      constructor
      · rintro ⟨right, x, hx, hr, h⟩
        exact .inr ⟨op, right, x, by have := c.remaining_advance_le; omega, rfl, hl, hr, h⟩
      · rintro (⟨hlt, _⟩ | ⟨_, right, x, _, rfl, _, hr, h⟩)
        · exact absurd hlt hn
        · exact ⟨right, x, hr.nearer, hr, h⟩
    · rw [if_neg hl, yields_ok]
      constructor
      · rintro ⟨rfl, rfl⟩
        exact .inl ⟨by omega, rfl, rfl⟩
      · rintro (⟨_, h⟩ | ⟨_, _, _, _, rfl, hle, _⟩)
        · exact h
        · exact absurd hle hl

/-- The bound in the type of a reading does not matter to what it yields. -/
theorem parseOperatorsFrom_bound {m n level : Nat} {left e : Expr} {c d : Cursor} (hm : c.remaining < m)
    (hn : c.remaining < n) (h : (parseOperatorsFrom level left c hm).Yields e d) :
    (parseOperatorsFrom level left c hn).Yields e d := by
  rw [parseOperatorsFrom_yields] at h ⊢
  rcases h with h | ⟨op, right, x, hx, ho, hl, hr, h⟩
  · exact .inl h
  · have hk : c.kind ≠ .endOfInput := by
      intro he
      simp [he, Operator.ofKind?] at ho
    have h₁ := Cursor.remaining_advance_lt hk
    have h₂ := hr.nearer
    exact .inr ⟨op, right, x, by omega, ho, hl, hr, parseOperatorsFrom_bound hx (by omega) h⟩
termination_by c.remaining

theorem parseOperand_yields {c d : Cursor} {e : Expr} :
    (parseOperand c).Yields e d ↔
      (∃ op operand, UnaryOp.ofKind? c.kind = some op ∧ (parseOperand c.advance).Yields operand d ∧
        e = .unary op operand c.current.position) ∨
      UnaryOp.ofKind? c.kind = none ∧ ∃ base x, ∃ hx : x.remaining < c.remaining, (parsePrimary c).Yields base x ∧
        (parseCallsFrom base x hx).Yields e d := by
  rw [parseOperand]
  split
  next op ho => simp [ho]
  next ho => simp [ho, yields_andThen]

theorem parseCallsFrom_yields {n : Nat} {base e : Expr} {c d : Cursor} {hc : c.remaining < n} :
    (parseCallsFrom base c hc).Yields e d ↔
      (c.kind ≠ .leftParen ∧ c.kind ≠ .dot ∧ e = base ∧ d = c) ∨
      (c.kind = .leftParen ∧ ∃ arguments x, ∃ hx : x.remaining < n, (parseArguments c.advance).Yields arguments x ∧
        (parseCallsFrom (.call base arguments c.current.position) x hx).Yields e d) ∨
      (c.kind = .dot ∧ c.advance.kind = .identifier ∧ c.advance.advance.kind = .leftParen ∧
        ∃ arguments x, ∃ hx : x.remaining < n, (parseArguments c.advance.advance.advance).Yields arguments x ∧
          (parseCallsFrom (.callMethod base c.advance.ident arguments) x hx).Yields e d) ∨
      (c.kind = .dot ∧ c.advance.kind = .identifier ∧ c.advance.advance.kind = .equal ∧
        ∃ value x, ∃ hx : x.remaining < n, (parseExpr c.advance.advance.advance).Yields value x ∧
          (parseCallsFrom (.setField base c.advance.ident value) x hx).Yields e d) ∨
      (c.kind = .dot ∧ c.advance.kind = .identifier ∧ c.advance.advance.kind ≠ .leftParen ∧
        c.advance.advance.kind ≠ .equal ∧ ∃ hx : c.advance.advance.remaining < n,
          (parseCallsFrom (.getField base c.advance.ident) c.advance.advance hx).Yields e d) := by
  rw [parseCallsFrom]
  split
  next hk =>
    simp only [hk, ne_eq, not_true_eq_false, false_and, true_and, reduceCtorEq, or_false, false_or]
    rw [yields_andThen]
    constructor
    · rintro ⟨arguments, x, _, ha, h⟩
      exact ⟨arguments, x, _, ha, h⟩
    · rintro ⟨arguments, x, _, ha, h⟩
      exact ⟨arguments, x, ha.nearer, ha, h⟩
  next hk =>
    simp only [hk, ne_eq, not_true_eq_false, false_and, and_false, true_and, reduceCtorEq, false_or]
    rw [yields_andThen]
    constructor
    · rintro ⟨member, x, hx, hm, h⟩
      obtain ⟨hi, rfl, rfl⟩ := expectName_yields.1 hm
      split at h
      next hp =>
        obtain ⟨arguments, y, _, ha, h⟩ := yields_andThen.1 h
        exact .inl ⟨hi, hp, arguments, y, _, ha, h⟩
      next hp =>
        obtain ⟨value, y, _, hv, h⟩ := yields_andThen.1 h
        exact .inr (.inl ⟨hi, hp, value, y, _, hv, h⟩)
      next h₁ h₂ => exact .inr (.inr ⟨hi, h₁, h₂, _, h⟩)
    · have hname : c.advance.kind = .identifier →
          (c.advance.expectName .propertyName).Yields c.advance.ident c.advance.advance :=
        fun hi => expectName_yields.2 ⟨hi, rfl, rfl⟩
      rintro (⟨hi, hp, arguments, y, _, ha, h⟩ | ⟨hi, hp, value, y, _, hv, h⟩ | ⟨hi, h₁, h₂, _, h⟩)
      · refine ⟨_, _, (hname hi).nearer, hname hi, ?_⟩
        simp only [hp]
        exact yields_andThen.2 ⟨arguments, y, ha.nearer, ha, h⟩
      · refine ⟨_, _, (hname hi).nearer, hname hi, ?_⟩
        simp only [hp]
        exact yields_andThen.2 ⟨value, y, hv.nearer, hv, h⟩
      · refine ⟨_, _, (hname hi).nearer, hname hi, ?_⟩
        split
        next hp => exact absurd hp h₁
        next hp => exact absurd hp h₂
        next => exact h
  next h₁ h₂ =>
    have h₁ : c.kind ≠ .leftParen := h₁
    have h₂ : c.kind ≠ .dot := h₂
    simp [h₁, h₂]

theorem parseArguments_yields {c d : Cursor} {es : List Expr} :
    (parseArguments c).Yields es d ↔
      c.kind = .rightParen ∧ es = [] ∧ d = c.advance ∨ c.kind ≠ .rightParen ∧ (parseArgumentList c).Yields es d := by
  rw [parseArguments]
  split
  next hk => simp [hk]
  next hk => simp [hk]

theorem parseArgumentList_yields {c d : Cursor} {es : List Expr} :
    (parseArgumentList c).Yields es d ↔ ∃ e x, (parseExpr c).Yields e x ∧
      (x.kind = .comma ∧ (∃ rest, (parseArgumentList x.advance).Yields rest d ∧ es = e :: rest) ∨
        x.kind = .rightParen ∧ es = [e] ∧ d = x.advance) := by
  rw [parseArgumentList, yields_andThen]
  constructor
  · rintro ⟨e, x, _, he, h⟩
    refine ⟨e, x, he, ?_⟩
    split at h
    next hk => exact .inl ⟨hk, yields_map.1 h⟩
    next hk =>
      obtain ⟨_, hu, rfl⟩ := yields_map.1 h
      obtain ⟨hp, rfl⟩ := expect_yields.1 hu
      exact .inr ⟨hp, rfl, rfl⟩
  · rintro ⟨e, x, he, ⟨hk, rest, hr, rfl⟩ | ⟨hk, rfl, rfl⟩⟩
    · refine ⟨e, x, he.nearer, he, ?_⟩
      rw [if_pos hk]
      exact yields_map.2 ⟨rest, hr, rfl⟩
    · refine ⟨e, x, he.nearer, he, ?_⟩
      rw [if_neg (by rw [hk]; decide)]
      exact yields_map.2 ⟨(), expect_yields.2 ⟨hk, rfl⟩, rfl⟩

theorem parsePrimary_yields {c d : Cursor} {e : Expr} :
    (parsePrimary c).Yields e d ↔
      (∃ l, c.current.literal? = some l ∧ e = .literal l c.current.position ∧ d = c.advance) ∨
      c.kind = .identifier ∧ e = .name c.ident ∧ d = c.advance ∨
      c.kind = .leftParen ∧ ∃ inner x, (parseExpr c.advance).Yields inner x ∧ x.kind = .rightParen ∧
        e = .grouping inner c.current.position ∧ d = x.advance := by
  have hname : c.kind = .identifier → c.current.literal? = none := fun h => by
    simp [Token.literal?, show c.current.kind = _ from h]
  have hgroup : c.kind = .leftParen → c.current.literal? = none := fun h => by
    simp [Token.literal?, show c.current.kind = _ from h]
  rw [parsePrimary]
  split
  next l hl =>
    have h₁ : c.kind ≠ .identifier := fun h => by simp [hname h] at hl
    have h₂ : c.kind ≠ .leftParen := fun h => by simp [hgroup h] at hl
    simp [hl, h₁, h₂]
  next hl =>
    simp only [hl, reduceCtorEq, false_and, exists_false, false_or]
    split
    next hk => simp [hk]
    next hk =>
      split
      next hp =>
        simp only [hp, reduceCtorEq, false_and, true_and, false_or]
        rw [yields_andThen]
        constructor
        · rintro ⟨inner, x, _, hi, h⟩
          obtain ⟨_, hu, rfl⟩ := yields_map.1 h
          obtain ⟨hr, rfl⟩ := expect_yields.1 hu
          exact ⟨inner, x, hi, hr, rfl, rfl⟩
        · rintro ⟨inner, x, hi, hr, rfl, rfl⟩
          exact ⟨inner, x, hi.nearer, hi, yields_map.2 ⟨(), expect_yields.2 ⟨hr, rfl⟩, rfl⟩⟩
      next hp => simp [hk, hp]

end QueryTemplate
