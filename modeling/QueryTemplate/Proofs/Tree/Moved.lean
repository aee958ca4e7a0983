import QueryTemplate.Proofs.Token.Joined
import QueryTemplate.Proofs.Tree.Statements

/-!
# Trees with their places moved

Tokens whose positions are moved by a function are read as a tree whose positions are moved by it (`Expr.moved`,
`Stmt.moved`). More tokens may follow the moved ones, as long as it does not show where these end: that is so behind a
token that ends a statement, since no expression goes past one (`Cursor.Within`).
-/

namespace QueryTemplate

/-- A name with its position moved. -/
def Ident.moved (f : Position → Position) (i : Ident) : Ident := ⟨i.name, f i.position⟩

namespace Expr

variable (f : Position → Position)

mutual

/-- An expression with its positions moved. -/
def moved : Expr → Expr
  | literal l p => literal l (f p)
  | binary op left right p => binary op left.moved right.moved (f p)
  | logical op left right p => logical op left.moved right.moved (f p)
  | unary op operand p => unary op operand.moved (f p)
  | grouping inner p => grouping inner.moved (f p)
  | name i => name (i.moved f)
  | assign target value => assign (target.moved f) value.moved
  | call callee arguments p => call callee.moved (movedAll arguments) (f p)
  | callMethod receiver method arguments => callMethod receiver.moved (method.moved f) (movedAll arguments)
  | getField receiver field => getField receiver.moved (field.moved f)
  | setField receiver field value => setField receiver.moved (field.moved f) value.moved

/-- Arguments with their positions moved. -/
def movedAll : List Expr → List Expr
  | [] => []
  | e :: es => e.moved :: movedAll es

end

end Expr

namespace Stmt

variable (f : Position → Position)

mutual

/-- A statement with its positions moved. -/
def moved : Stmt → Stmt
  | expr e => expr (e.moved f)
  | define name value => define (name.moved f) (value.moved f)
  | print e => print (e.moved f)
  | ifThen condition thenBranch => ifThen (condition.moved f) thenBranch.moved
  | ifElse condition thenBranch elseBranch => ifElse (condition.moved f) thenBranch.moved elseBranch.moved
  | block body => block (movedAll body)
  | function name parameters body => function (name.moved f) (parameters.map (Ident.moved f)) (movedAll body)
  | mapper name parameters body => mapper (name.moved f) (parameters.map (Ident.moved f)) (movedAll body)
  | ret value p => ret (value.map (Expr.moved f)) (f p)
  | importType path localName => importType path (localName.moved f)

/-- Statements with their positions moved. -/
def movedAll : List Stmt → List Stmt
  | [] => []
  | s :: ss => s.moved :: movedAll ss

end

end Stmt

theorem Operator.moved_node (f : Position → Position) (op : Operator) (left right : Expr) (p : Position) :
    (op.node left right p).moved f = op.node (left.moved f) (right.moved f) (f p) := by
  cases op <;> simp only [node, Expr.moved]

/-! ## Cursors -/

/-- Whether a statement can end with a token of this kind without a look at what comes next. -/
def TokenKind.endsStmt (k : TokenKind) : Bool := k == .semicolon || k == .rightBrace

theorem TokenKind.endsStmt_iff {k : TokenKind} : k.endsStmt = true ↔ k = .semicolon ∨ k = .rightBrace := by
  simp [endsStmt]

theorem Operator.endsStmt_kind (op : Operator) : op.kind.endsStmt = false ∧ op.kind ≠ .endOfInput := by
  rcases op with op | op <;> cases op <;> decide

theorem UnaryOp.endsStmt_kind (op : UnaryOp) : op.kind.endsStmt = false ∧ op.kind ≠ .endOfInput := by
  cases op <;> decide

namespace Cursor

variable {f : Position → Position} {tail : List Token} {c c' d : Cursor}

/-- The tokens ahead of the first cursor are ahead of the second, moved, and a tail after them. If this is more than the
end of input, it does not go on with an `else`, and the token before it ends a statement. -/
def Between (f : Position → Position) (tail : List Token) (c c' : Cursor) : Prop :=
  ∃ ts, c.ahead = ts ++ [Token.endOfInput] ∧ c'.ahead = ts.map (Token.moved f) ++ tail ∧
    (∀ t ∈ ts, t.kind ≠ .endOfInput) ∧
    (tail = [Token.endOfInput] ∨ (ofList tail).kind ≠ .elseWord ∧ ∀ t ∈ ts.getLast?, t.kind.endsStmt = true)

/-- The same before the last of the tokens, so that tokens of the same kind are ahead. -/
def Within (f : Position → Position) (tail : List Token) (c c' : Cursor) : Prop :=
  Between f tail c c' ∧ (tail = [Token.endOfInput] ∨ c.kind ≠ .endOfInput)

theorem Between.within (h : Between f tail c c') (hk : c.kind ≠ .endOfInput) : Within f tail c c' := ⟨h, .inr hk⟩

/-- There is a token ahead. -/
theorem Between.exists_cons (h : Between f tail c c') (hk : c.kind ≠ .endOfInput) :
    ∃ t ts, c.ahead = t :: ts ++ [Token.endOfInput] ∧ c'.ahead = t.moved f :: ts.map (Token.moved f) ++ tail ∧
      (∀ u ∈ t :: ts, u.kind ≠ .endOfInput) ∧
      (tail = [Token.endOfInput] ∨
        (ofList tail).kind ≠ .elseWord ∧ ∀ u ∈ (t :: ts).getLast?, u.kind.endsStmt = true) := by
  obtain ⟨ts, ha, ha', hts, hend⟩ := h
  cases ts with
  | nil =>
    rw [kind, current, ha] at hk
    exact absurd rfl hk
  | cons t ts => exact ⟨t, ts, ha, ha', hts, hend⟩

theorem Between.current (h : Between f tail c c') (hk : c.kind ≠ .endOfInput) : c'.current = c.current.moved f := by
  obtain ⟨t, ts, ha, ha', -⟩ := h.exists_cons hk
  rw [Cursor.current, Cursor.current, ha, ha']
  rfl

theorem Between.advance (h : Between f tail c c') (hk : c.kind ≠ .endOfInput) :
    Between f tail c.advance c'.advance := by
  obtain ⟨passed, ahead⟩ := c
  obtain ⟨passed', ahead'⟩ := c'
  obtain ⟨t, ts, rfl, rfl, hts, hend⟩ := h.exists_cons hk
  obtain ⟨ht, hts⟩ := List.forall_mem_cons.1 hts
  refine ⟨ts, by simp [Cursor.advance, ht], by simp [Cursor.advance, Token.moved, ht], hts,
    hend.imp_right (And.imp_right fun h => ?_)⟩
  cases ts with
  | nil => rintro _ ⟨⟩
  | cons u ts => rwa [List.getLast?_cons_cons] at h

/-- Where the moved tokens end, the tail is ahead. -/
theorem Between.ahead_eq (h : Between f tail c c') (hk : c.kind = .endOfInput) : c'.ahead = tail := by
  obtain ⟨ts, ha, ha', hts, -⟩ := h
  cases ts with
  | nil => exact ha'
  | cons t ts =>
    rw [kind, Cursor.current, ha] at hk
    exact absurd hk (hts t List.mem_cons_self)

/-- No `else` is ahead that is not one of the moved tokens. -/
theorem Between.kind_ne (h : Between f tail c c') (hk : c.kind ≠ .elseWord) : c'.kind ≠ .elseWord := by
  by_cases he : c.kind = .endOfInput
  · rw [kind, Cursor.current, h.ahead_eq he]
    obtain ⟨ts, -, -, -, rfl | ⟨htail, -⟩⟩ := h
    · rintro ⟨⟩
    · exact htail
  · rw [kind, h.current he]
    exact hk

namespace Within

theorem kind (h : Within f tail c c') : c'.kind = c.kind := by
  by_cases hk : c.kind = .endOfInput
  · rw [Cursor.kind, Cursor.current, h.1.ahead_eq hk, h.2.resolve_right (not_not_intro hk), hk]
    rfl
  · rw [Cursor.kind, h.1.current hk]
    rfl

variable {k : TokenKind}

/-- A token that ends no statement is not the last one. -/
theorem advance (h : Within f tail c c') (hk : c.kind = k)
    (hends : k.endsStmt = false ∧ k ≠ .endOfInput := by decide) : Within f tail c.advance c'.advance := by
  have hne : c.kind ≠ .endOfInput := hk ▸ hends.2
  refine ⟨h.1.advance hne, ?_⟩
  obtain ⟨t, ts, ha, -, hts, htail | ⟨-, hlast⟩⟩ := h.1.exists_cons hne
  · exact .inl htail
  · obtain ⟨passed, ahead⟩ := c
    obtain rfl : ahead = _ := ha
    obtain rfl : t.kind = k := hk
    obtain ⟨ht, hts⟩ := List.forall_mem_cons.1 hts
    cases ts with
    | nil => exact absurd (hlast t rfl) (by rw [hends.1]; decide)
    | cons u us =>
      refine .inr ?_
      simp only [Cursor.advance, List.cons_append, if_neg ht]
      exact hts u List.mem_cons_self

theorem current (h : Within f tail c c') (hk : c.kind = k) (hne : k ≠ .endOfInput := by decide) :
    c'.current = c.current.moved f :=
  h.1.current (hk ▸ hne)

theorem position (h : Within f tail c c') (hk : c.kind = k) (hne : k ≠ .endOfInput := by decide) :
    c'.current.position = f c.current.position := by
  rw [h.current hk hne]
  rfl

theorem ident (h : Within f tail c c') (hk : c.kind = .identifier) : c'.ident = c.ident.moved f := by
  rw [Cursor.ident, h.current hk]
  rfl

theorem skipSemicolon (h : Within f tail c c') : Between f tail c.skipSemicolon c'.skipSemicolon := by
  unfold Cursor.skipSemicolon
  rw [h.kind]
  split
  next hk => exact h.1.advance (by rw [hk]; decide)
  next => exact h.1

end Within

end Cursor

/-! ## Expressions -/

open Parsed Cursor

section Expressions

variable {f : Position → Position} {tail : List Token}

theorem Token.endsStmt_of_literal? {t : Token} {l : Literal} (h : t.literal? = some l) :
    t.kind.endsStmt = false ∧ t.kind ≠ .endOfInput := by
  refine ⟨?_, Token.kind_ne_endOfInput_of_literal? h⟩
  unfold Token.literal? at h
  split at h <;> simp_all [TokenKind.endsStmt]

mutual

theorem parseExpr_moved {c c' d : Cursor} {e : Expr} (hc : Within f tail c c') (h : (parseExpr c).Yields e d) :
    ∃ d', (parseExpr c').Yields (e.moved f) d' ∧ Within f tail d d' := by
  obtain ⟨target, x, ht, h⟩ := parseExpr_yields.1 h
  obtain ⟨x', ht', hx⟩ := parseOperation_moved hc ht
  rcases h with ⟨hk, rfl, rfl⟩ | ⟨hk, name, value, rfl, hv, rfl⟩
  · exact ⟨x', parseExpr_yields.2 ⟨_, x', ht', .inl ⟨hx.kind ▸ hk, rfl, rfl⟩⟩, hx⟩
  · have h₁ := ht.nearer
    have h₂ := x.remaining_advance_le
    obtain ⟨d', hv', hd⟩ := parseExpr_moved (hx.advance hk) hv
    simp only [Expr.moved] at ht' ⊢
    exact ⟨d', parseExpr_yields.2 ⟨_, x', ht', .inr ⟨hx.kind ▸ hk, _, _, rfl, hv', rfl⟩⟩, hd⟩
termination_by (c.remaining, 5)

theorem parseOperation_moved {level : Nat} {c c' d : Cursor} {e : Expr} (hc : Within f tail c c')
    (h : (parseOperation level c).Yields e d) :
    ∃ d', (parseOperation level c').Yields (e.moved f) d' ∧ Within f tail d d' := by
  obtain ⟨left, x, hx, hl, h⟩ := parseOperation_yields.1 h
  obtain ⟨x', hl', hx'⟩ := parseOperand_moved hc hl
  obtain ⟨d', h', hd⟩ := parseOperatorsFrom_moved hx' h hl'.nearer
  exact ⟨d', parseOperation_yields.2 ⟨_, x', hl'.nearer, hl', h'⟩, hd⟩
termination_by (c.remaining, 3)

theorem parseOperatorsFrom_moved {n n' level : Nat} {left e : Expr} {c c' d : Cursor} {hn : c.remaining < n}
    (hc : Within f tail c c') (h : (parseOperatorsFrom level left c hn).Yields e d) (hn' : c'.remaining < n') :
    ∃ d', (parseOperatorsFrom level (left.moved f) c' hn').Yields (e.moved f) d' ∧ Within f tail d d' := by
  rcases parseOperatorsFrom_yields.1 h with ⟨ho, rfl, rfl⟩ | ⟨op, right, x, hx, ho, hl, hr, h⟩
  · exact ⟨c', parseOperatorsFrom_yields.2 (.inl ⟨hc.kind ▸ ho, rfl, rfl⟩), hc⟩
  · have hk := (Operator.ofKind?_eq_some_iff.1 ho).symm
    have hop := op.endsStmt_kind
    have h₁ := remaining_advance_lt (c := c) (hk ▸ hop.2)
    have h₂ := hr.nearer
    obtain ⟨x', hr', hx'⟩ := parseOperation_moved (hc.advance hk hop) hr
    have h₃ := hr'.nearer
    have h₄ := c'.remaining_advance_le
    have hlt : x'.remaining < n' := by omega
    obtain ⟨d', h', hd⟩ := parseOperatorsFrom_moved hx' h hlt
    rw [Operator.moved_node, ← hc.position hk hop.2] at h'
    exact ⟨d', parseOperatorsFrom_yields.2 (.inr ⟨op, _, x', _, hc.kind ▸ ho, hl, hr', h'⟩), hd⟩
termination_by (c.remaining, 4)

theorem parseOperand_moved {c c' d : Cursor} {e : Expr} (hc : Within f tail c c')
    (h : (parseOperand c).Yields e d) : ∃ d', (parseOperand c').Yields (e.moved f) d' ∧ Within f tail d d' := by
  rcases parseOperand_yields.1 h with ⟨op, operand, ho, hoperand, rfl⟩ | ⟨ho, base, x, hx, hb, h⟩
  · have hk := (UnaryOp.ofKind?_eq_some_iff.1 ho).symm
    have hop := op.endsStmt_kind
    have := UnaryOp.remaining_advance_lt ho
    obtain ⟨d', h', hd⟩ := parseOperand_moved (hc.advance hk hop) hoperand
    refine ⟨d', parseOperand_yields.2 (.inl ⟨op, _, hc.kind ▸ ho, h', ?_⟩), hd⟩
    rw [Expr.moved, hc.position hk hop.2]
  · obtain ⟨x', hb', hx'⟩ := parsePrimary_moved hc hb
    obtain ⟨d', h', hd⟩ := parseCallsFrom_moved hx' h hb'.nearer
    exact ⟨d', parseOperand_yields.2 (.inr ⟨hc.kind ▸ ho, _, x', _, hb', h'⟩), hd⟩
termination_by (c.remaining, 2)

theorem parseCallsFrom_moved {n n' : Nat} {base e : Expr} {c c' d : Cursor} {hn : c.remaining < n}
    (hc : Within f tail c c') (h : (parseCallsFrom base c hn).Yields e d) (hn' : c'.remaining < n') :
    ∃ d', (parseCallsFrom (base.moved f) c' hn').Yields (e.moved f) d' ∧ Within f tail d d' := by
  rcases parseCallsFrom_yields.1 h with ⟨h₁, h₂, rfl, rfl⟩ | ⟨hk, arguments, x, hx, ha, h⟩ |
    ⟨hk, hi, hp, arguments, x, hx, ha, h⟩ | ⟨hk, hi, he, value, x, hx, hv, h⟩ | ⟨hk, hi, hp, he, hx, h⟩
  · exact ⟨c', parseCallsFrom_yields.2 (.inl ⟨hc.kind ▸ h₁, hc.kind ▸ h₂, rfl, rfl⟩), hc⟩
  · have h₁ := remaining_advance_lt_of_leftParen hk
    have h₂ := ha.nearer
    obtain ⟨x', ha', hx'⟩ := parseArguments_moved (hc.advance hk) ha
    have h₃ := ha'.nearer
    have h₄ := c'.remaining_advance_le
    have hlt : x'.remaining < n' := by omega
    obtain ⟨d', h', hd⟩ := parseCallsFrom_moved hx' h hlt
    rw [Expr.moved, ← hc.position hk] at h'
    exact ⟨d', parseCallsFrom_yields.2 (.inr (.inl ⟨hc.kind ▸ hk, _, x', _, ha', h'⟩)), hd⟩
  · have h₁ := remaining_advance_lt (c := c) (by rw [hk]; decide)
    have h₂ := c.advance.remaining_advance_le
    have h₃ := c.advance.advance.remaining_advance_le
    have h₄ := ha.nearer
    have hm := hc.advance hk
    have hopen := hm.advance hi
    obtain ⟨x', ha', hx'⟩ := parseArguments_moved (hopen.advance hp) ha
    have h₅ := ha'.nearer
    have h₆ := c'.remaining_advance_le
    have h₇ := c'.advance.remaining_advance_le
    have h₈ := c'.advance.advance.remaining_advance_le
    have hlt : x'.remaining < n' := by omega
    obtain ⟨d', h', hd⟩ := parseCallsFrom_moved hx' h hlt
    rw [Expr.moved, ← hm.ident hi] at h'
    exact ⟨d', parseCallsFrom_yields.2 (.inr (.inr (.inl
      ⟨hc.kind ▸ hk, hm.kind ▸ hi, hopen.kind ▸ hp, _, x', _, ha', h'⟩))), hd⟩
  · have h₁ := remaining_advance_lt (c := c) (by rw [hk]; decide)
    have h₂ := c.advance.remaining_advance_le
    have h₃ := c.advance.advance.remaining_advance_le
    have h₄ := hv.nearer
    have hm := hc.advance hk
    have hequal := hm.advance hi
    obtain ⟨x', hv', hx'⟩ := parseExpr_moved (hequal.advance he) hv
    have h₅ := hv'.nearer
    have h₆ := c'.remaining_advance_le
    have h₇ := c'.advance.remaining_advance_le
    have h₈ := c'.advance.advance.remaining_advance_le
    have hlt : x'.remaining < n' := by omega
    obtain ⟨d', h', hd⟩ := parseCallsFrom_moved hx' h hlt
    rw [Expr.moved, ← hm.ident hi] at h'
    exact ⟨d', parseCallsFrom_yields.2 (.inr (.inr (.inr (.inl
      ⟨hc.kind ▸ hk, hm.kind ▸ hi, hequal.kind ▸ he, _, x', _, hv', h'⟩)))), hd⟩
  · have h₁ := remaining_advance_lt (c := c) (by rw [hk]; decide)
    have h₂ := c.advance.remaining_advance_le
    have hm := hc.advance hk
    have hx' := hm.advance hi
    have h₃ := c'.remaining_advance_le
    have h₄ := c'.advance.remaining_advance_le
    have hlt : c'.advance.advance.remaining < n' := by omega
    obtain ⟨d', h', hd⟩ := parseCallsFrom_moved hx' h hlt
    rw [Expr.moved, ← hm.ident hi] at h'
    exact ⟨d', parseCallsFrom_yields.2 (.inr (.inr (.inr (.inr
      ⟨hc.kind ▸ hk, hm.kind ▸ hi, hx'.kind ▸ hp, hx'.kind ▸ he, _, h'⟩)))), hd⟩
termination_by (c.remaining, 8)

theorem parseArguments_moved {c c' d : Cursor} {es : List Expr} (hc : Within f tail c c')
    (h : (parseArguments c).Yields es d) :
    ∃ d', (parseArguments c').Yields (Expr.movedAll f es) d' ∧ Within f tail d d' := by
  rcases parseArguments_yields.1 h with ⟨hk, rfl, rfl⟩ | ⟨hk, h⟩
  · exact ⟨_, parseArguments_yields.2 (.inl ⟨hc.kind ▸ hk, rfl, rfl⟩), hc.advance hk⟩
  · obtain ⟨d', h', hd⟩ := parseArgumentList_moved hc h
    exact ⟨d', parseArguments_yields.2 (.inr ⟨hc.kind ▸ hk, h'⟩), hd⟩
termination_by (c.remaining, 7)

theorem parseArgumentList_moved {c c' d : Cursor} {es : List Expr} (hc : Within f tail c c')
    (h : (parseArgumentList c).Yields es d) :
    ∃ d', (parseArgumentList c').Yields (Expr.movedAll f es) d' ∧ Within f tail d d' := by
  obtain ⟨e, x, he, h⟩ := parseArgumentList_yields.1 h
  obtain ⟨x', he', hx⟩ := parseExpr_moved hc he
  rcases h with ⟨hk, rest, hr, rfl⟩ | ⟨hk, rfl, rfl⟩
  · have h₁ := he.nearer
    have h₂ := x.remaining_advance_le
    obtain ⟨d', hr', hd⟩ := parseArgumentList_moved (hx.advance hk) hr
    exact ⟨d', parseArgumentList_yields.2 ⟨_, x', he', .inl ⟨hx.kind ▸ hk, _, hr', rfl⟩⟩, hd⟩
  · exact ⟨_, parseArgumentList_yields.2 ⟨_, x', he', .inr ⟨hx.kind ▸ hk, rfl, rfl⟩⟩, hx.advance hk⟩
termination_by (c.remaining, 6)

theorem parsePrimary_moved {c c' d : Cursor} {e : Expr} (hc : Within f tail c c')
    (h : (parsePrimary c).Yields e d) : ∃ d', (parsePrimary c').Yields (e.moved f) d' ∧ Within f tail d d' := by
  rcases parsePrimary_yields.1 h with ⟨l, hl, rfl, rfl⟩ | ⟨hk, rfl, rfl⟩ | ⟨hk, inner, x, hi, hr, rfl, rfl⟩
  · have hends := Token.endsStmt_of_literal? hl
    refine ⟨_, parsePrimary_yields.2 (.inl ⟨l, ?_, ?_, rfl⟩), hc.advance rfl hends⟩
    · rw [hc.current rfl hends.2]
      exact hl
    · rw [Expr.moved, hc.position rfl hends.2]
  · refine ⟨_, parsePrimary_yields.2 (.inr (.inl ⟨hc.kind ▸ hk, ?_, rfl⟩)), hc.advance hk⟩
    rw [Expr.moved, hc.ident hk]
  · have := remaining_advance_lt_of_leftParen hk
    obtain ⟨x', hi', hx⟩ := parseExpr_moved (hc.advance hk) hi
    refine ⟨_, parsePrimary_yields.2 (.inr (.inr ⟨hc.kind ▸ hk, _, x', hi', hx.kind ▸ hr, ?_, rfl⟩)), hx.advance hr⟩
    rw [Expr.moved, hc.position hk]
termination_by (c.remaining, 1)

end

end Expressions

end QueryTemplate
