import QueryTemplate.Proofs.Tree.Symbols

/-!
# Reading inverts writing

The readers of expressions against `Expr.symbols`.

* **Soundness** (`parseExpr_sound`): the tokens that reading passes are the symbols of the tree that it yields, and the
  tree keeps to the precedence of the operators. The invariant of the two loops is about the tree so far and the token
  ahead: that token does not belong to the tree, and an operator ahead binds no more tightly than the tree.
* **Completeness** (`parseExpr_complete`): the symbols of a tree that keeps to the precedence are read as that tree, up
  to places, whatever comes after them that does not continue an expression. An operation is read by the loop that also
  reads what follows it, so the induction is about the loop (`parseOperation_complete`, `parseCalls_complete`).

A call of a field is no tree of the precedence: its symbols are those of a call of a method.
-/

namespace QueryTemplate

open Parsed Cursor

/-- Whether a token of this kind after an expression would be read as a part of it. -/
def TokenKind.continuesExpr (k : TokenKind) : Bool :=
  k == .leftParen || k == .dot || k == .equal || (Operator.ofKind? k).isSome

/-- Whether an operand or operation may stand before a token of this kind: calls and members would be a part of it, and
the value of a field write takes in all that continues it. -/
def Expr.MayPrecede (e : Expr) (k : TokenKind) : Prop :=
  k ≠ .leftParen ∧ k ≠ .dot ∧ (e.endsInSet = true → k.continuesExpr = false)

theorem TokenKind.continuesExpr_eq_false {k : TokenKind} : k.continuesExpr = false ↔
    k ≠ .leftParen ∧ k ≠ .dot ∧ k ≠ .equal ∧ Operator.ofKind? k = none := by
  simp [continuesExpr, and_assoc]

theorem Expr.mayPrecede_of_continuesExpr {e : Expr} {k : TokenKind} (h : k.continuesExpr = false) : e.MayPrecede k := by
  obtain ⟨h₁, h₂, -, -⟩ := TokenKind.continuesExpr_eq_false.1 h
  exact ⟨h₁, h₂, fun _ => h⟩

/-- An operator that may come after an expression does not come after the value of a field write. -/
theorem Expr.MayPrecede.endsInSet_of_operator {e : Expr} {k : TokenKind} {op : Operator} (h : e.MayPrecede k)
    (ho : Operator.ofKind? k = some op) : e.endsInSet = false := by
  cases hs : e.endsInSet with
  | false => rfl
  | true =>
    have := (TokenKind.continuesExpr_eq_false.1 (h.2.2 hs)).2.2.2
    rw [ho] at this
    cases this

/-! ## Soundness -/

section Soundness

/-- The token of a literal has the symbol of the literal. -/
theorem symbol_of_literal? {t : Token} {l : Literal} (ht : t.WellShaped) (h : t.literal? = some l) :
    t.symbol = l.symbol := by
  obtain ⟨kind, payload, position⟩ := t
  unfold Token.WellShaped at ht
  unfold Token.literal? at h
  cases kind <;> cases payload <;> simp_all [Token.symbol, Token.text, Payload.text?] <;> (subst h; rfl)

theorem reads_literal {c : Cursor} {l : Literal} (hc : c.WellShaped) (h : c.current.literal? = some l) :
    c.Reads [l.symbol] c.advance := by
  have hk : c.kind ≠ .endOfInput := Token.kind_ne_endOfInput_of_literal? h
  obtain ⟨passed, ahead⟩ := c
  cases ahead with
  | nil => exact absurd rfl hk
  | cons t ts => exact symbol_of_literal? (hc t List.mem_cons_self) h ▸ reads_advance hk

/-- Punctuation is read by passing it. -/
theorem reads_bare {c : Cursor} (hc : c.WellShaped) {k : TokenKind} (hk : c.kind = k)
    (h : k ≠ .identifier ∧ k ≠ .string ∧ k ≠ .number ∧ k ≠ .endOfInput) : c.Reads [k.bare] c.advance :=
  symbol_current hc hk h ▸ reads_advance (hk ▸ h.2.2.2)

theorem reads_ident {c : Cursor} (hc : c.WellShaped) (hk : c.kind = .identifier) : c.Reads [c.ident.symbol] c.advance :=
  symbol_identifier hc hk ▸ reads_advance (by rw [hk]; decide)

theorem reads_operator {c : Cursor} {op : Operator} (hc : c.WellShaped) (h : Operator.ofKind? c.kind = some op) :
    c.Reads [op.kind.bare] c.advance := by
  refine reads_bare hc (Operator.ofKind?_eq_some_iff.1 h).symm ?_
  rcases op with op | op <;> cases op <;> decide

theorem reads_unaryOp {c : Cursor} {op : UnaryOp} (hc : c.WellShaped) (h : UnaryOp.ofKind? c.kind = some op) :
    c.Reads [op.kind.bare] c.advance := by
  refine reads_bare hc (UnaryOp.ofKind?_eq_some_iff.1 h).symm ?_
  cases op <;> decide

mutual

theorem parseExpr_sound {c d : Cursor} {e : Expr} (hc : c.WellShaped) (h : (parseExpr c).Yields e d) :
    c.Reads e.symbols d ∧ e.WellRanked ∧ d.kind.continuesExpr = false := by
  obtain ⟨target, x, ht, ⟨hk, rfl, rfl⟩ | ⟨hk, name, value, rfl, hv, rfl⟩⟩ := parseExpr_yields.1 h
  · obtain ⟨hr, hw, -, hp, ho⟩ := parseOperation_sound (by decide) hc ht
    refine ⟨hr, hw, TokenKind.continuesExpr_eq_false.2 ⟨hp.1, hp.2.1, hk, ?_⟩⟩
    cases hop : Operator.ofKind? d.kind with
    | none => rfl
    | some op =>
      have h₁ := ho op hop
      have h₂ := op.level_pos
      omega
  · obtain ⟨hr, -, -, -, -⟩ := parseOperation_sound (by decide) hc ht
    have hx := ht.nearer
    have hxa := x.remaining_advance_le
    have he := reads_bare (hr.wellShaped hc) hk (by decide)
    obtain ⟨hr', hw', hd⟩ := parseExpr_sound (he.wellShaped (hr.wellShaped hc)) hv
    refine ⟨?_, ?_, hd⟩
    · simp only [Expr.symbols] at hr ⊢
      exact (hr.trans he).trans hr'
    · simpa only [Expr.WellRanked] using hw'
termination_by (c.remaining, 5)

theorem parseOperation_sound {level : Nat} {c d : Cursor} {e : Expr} (hl : level ≤ 7) (hc : c.WellShaped)
    (h : (parseOperation level c).Yields e d) :
    c.Reads e.symbols d ∧ e.WellRanked ∧ level ≤ e.rank ∧ e.MayPrecede d.kind ∧
      ∀ op, Operator.ofKind? d.kind = some op → op.level < level := by
  obtain ⟨left, x, hx, hleft, hloop⟩ := parseOperation_yields.1 h
  obtain ⟨hr, hw, hrank, hp⟩ := parseOperand_sound hc hleft
  have hop : ∀ op, Operator.ofKind? x.kind = some op → op.level ≤ left.rank := fun op _ => by
    have := op.level_le
    omega
  obtain ⟨ss, hr', hs, hrest⟩ := parseOperatorsFrom_sound hl (hr.wellShaped hc) hw (by omega) hp hop hloop
  exact ⟨hs ▸ hr.trans hr', hrest⟩
termination_by (c.remaining, 3)

theorem parseOperatorsFrom_sound {n level : Nat} {left e : Expr} {c d : Cursor} {hn : c.remaining < n} (hl : level ≤ 7)
    (hc : c.WellShaped) (hw : left.WellRanked) (hrank : level ≤ left.rank) (hp : left.MayPrecede c.kind)
    (hop : ∀ op, Operator.ofKind? c.kind = some op → op.level ≤ left.rank)
    (h : (parseOperatorsFrom level left c hn).Yields e d) :
    ∃ ss, c.Reads ss d ∧ e.symbols = left.symbols ++ ss ∧ e.WellRanked ∧ level ≤ e.rank ∧ e.MayPrecede d.kind ∧
      ∀ op, Operator.ofKind? d.kind = some op → op.level < level := by
  rcases parseOperatorsFrom_yields.1 h with ⟨hlow, rfl, rfl⟩ | ⟨op, right, x, hx, ho, hle, hright, hloop⟩
  · exact ⟨[], Reads.refl _, (List.append_nil _).symm, hw, hrank, hp, hlow⟩
  · have hk : c.kind ≠ .endOfInput := by
      intro he
      simp [he, Operator.ofKind?] at ho
    have hlt := remaining_advance_lt hk
    have hx' := hright.nearer
    have h₀ := reads_operator hc ho
    have hlevel := op.level_le
    obtain ⟨hr₁, hw₁, hrank₁, hp₁, hop₁⟩ := parseOperation_sound (by omega) (h₀.wellShaped hc) hright
    have hnode : (op.node left right c.current.position).WellRanked :=
      op.wellRanked_node left right _ |>.2 ⟨hop op ho, hrank₁, hp.endsInSet_of_operator ho, hw, hw₁⟩
    have hpnode : (op.node left right c.current.position).MayPrecede x.kind :=
      ⟨hp₁.1, hp₁.2.1, fun hs => hp₁.2.2 (by simpa using hs)⟩
    obtain ⟨ss, hr₂, hs, hrest⟩ := parseOperatorsFrom_sound hl (hr₁.wellShaped (h₀.wellShaped hc)) hnode
      (by rw [Operator.rank_node]; exact hle) hpnode
      (fun op' ho' => by rw [Operator.rank_node]; exact Nat.lt_succ_iff.1 (hop₁ op' ho')) hloop
    refine ⟨_, (h₀.trans hr₁).trans hr₂, ?_, hrest⟩
    rw [hs, Operator.symbols_node]
    simp
termination_by (c.remaining, 4)

theorem parseOperand_sound {c d : Cursor} {e : Expr} (hc : c.WellShaped) (h : (parseOperand c).Yields e d) :
    c.Reads e.symbols d ∧ e.WellRanked ∧ 7 ≤ e.rank ∧ e.MayPrecede d.kind := by
  rcases parseOperand_yields.1 h with ⟨op, operand, ho, hoperand, rfl⟩ | ⟨-, base, x, hx, hbase, hcalls⟩
  · have hlt := UnaryOp.remaining_advance_lt ho
    have h₀ := reads_unaryOp hc ho
    obtain ⟨hr, hw, hrank, hp⟩ := parseOperand_sound (h₀.wellShaped hc) hoperand
    refine ⟨?_, ?_, Nat.le_refl _, hp⟩
    · simp only [Expr.symbols]
      exact h₀.trans hr
    · simp only [Expr.WellRanked]
      exact ⟨hrank, hw⟩
  · obtain ⟨hr, hw, hrank, hs⟩ := parsePrimary_sound hc hbase
    obtain ⟨ss, hr', hs', hw', hrank', hp'⟩ :=
      parseCallsFrom_sound (hr.wellShaped hc) hw (by omega) (fun h => by rw [hs.1] at h; cases h)
        (fun h => by rw [hs.2] at h; cases h) hcalls
    exact ⟨hs' ▸ hr.trans hr', hw', by omega, hp'⟩
termination_by (c.remaining, 2)

theorem parseCallsFrom_sound {n : Nat} {base e : Expr} {c d : Cursor} {hn : c.remaining < n} (hc : c.WellShaped)
    (hw : base.WellRanked) (hrank : 8 ≤ base.rank) (hset : base.endsInSet = true → c.kind.continuesExpr = false)
    (hget : base.isGetField = true → c.kind ≠ .leftParen) (h : (parseCallsFrom base c hn).Yields e d) :
    ∃ ss, c.Reads ss d ∧ e.symbols = base.symbols ++ ss ∧ e.WellRanked ∧ 8 ≤ e.rank ∧ e.MayPrecede d.kind := by
  have hnoset : c.kind = .leftParen ∨ c.kind = .dot → base.endsInSet = false := fun hk => by
    cases hb : base.endsInSet with
    | false => rfl
    | true =>
      obtain ⟨h₁, h₂, -, -⟩ := TokenKind.continuesExpr_eq_false.1 (hset hb)
      exact hk.elim (absurd · h₁) (absurd · h₂)
  have hnoget : c.kind = .leftParen → base.isGetField = false := fun hk => by
    cases hb : base.isGetField with
    | false => rfl
    | true => exact absurd hk (hget hb)
  have hmember : c.kind = .dot → c.advance.kind = .identifier →
      c.Reads [TokenKind.dot.bare, c.advance.ident.symbol] c.advance.advance ∧
        c.advance.advance.remaining < c.remaining := fun hk hi => by
    have h₀ := reads_bare hc hk (by decide)
    refine ⟨h₀.trans (reads_ident (h₀.wellShaped hc) hi), ?_⟩
    exact remaining_advance_lt_trans (remaining_advance_lt (by rw [hk]; decide))
  rcases parseCallsFrom_yields.1 h with ⟨h₁, h₂, rfl, rfl⟩ | ⟨hk, arguments, x, hx, ha, h⟩ |
    ⟨hk, hi, hp, arguments, x, hx, ha, h⟩ | ⟨hk, hi, hp, value, x, hx, hv, h⟩ | ⟨hk, hi, h₁, h₂, hx, h⟩
  · exact ⟨[], Reads.refl _, (List.append_nil _).symm, hw, hrank, h₁, h₂, hset⟩
  · have hlt := remaining_advance_lt_of_leftParen hk
    have h₀ := reads_bare hc hk (by decide)
    have hxr := ha.nearer
    obtain ⟨hr, hwa⟩ := parseArguments_sound (h₀.wellShaped hc) ha
    obtain ⟨ss, hr', hs, hrest⟩ := parseCallsFrom_sound (hr.wellShaped (h₀.wellShaped hc))
      (by simp only [Expr.WellRanked]; exact ⟨hrank, hnoset (.inl hk), hnoget hk, hw, hwa⟩) (Nat.le_refl _)
      (fun h => by cases h) (fun h => by cases h) h
    exact ⟨_, (h₀.trans hr).trans hr', by simp [hs, Expr.symbols], hrest⟩
  · obtain ⟨hm, hlt⟩ := hmember hk hi
    have h₀ := hm.trans (reads_bare (hm.wellShaped hc) hp (by decide))
    have hlt' := remaining_advance_lt_of_leftParen hp
    have hxr := ha.nearer
    obtain ⟨hr, hwa⟩ := parseArguments_sound (h₀.wellShaped hc) ha
    obtain ⟨ss, hr', hs, hrest⟩ := parseCallsFrom_sound (hr.wellShaped (h₀.wellShaped hc))
      (by simp only [Expr.WellRanked]; exact ⟨hrank, hnoset (.inr hk), hw, hwa⟩) (Nat.le_refl _)
      (fun h => by cases h) (fun h => by cases h) h
    exact ⟨_, (h₀.trans hr).trans hr', by simp [hs, Expr.symbols], hrest⟩
  · obtain ⟨hm, hlt⟩ := hmember hk hi
    have h₀ := hm.trans (reads_bare (hm.wellShaped hc) hp (by decide))
    have hlt' := c.advance.advance.remaining_advance_le
    have hxr := hv.nearer
    obtain ⟨hr, hwv, hf⟩ := parseExpr_sound (h₀.wellShaped hc) hv
    obtain ⟨ss, hr', hs, hrest⟩ := parseCallsFrom_sound (hr.wellShaped (h₀.wellShaped hc))
      (by simp only [Expr.WellRanked]; exact ⟨hrank, hnoset (.inr hk), hw, hwv⟩) (Nat.le_refl _)
      (fun _ => hf) (fun h => by cases h) h
    exact ⟨_, (h₀.trans hr).trans hr', by simp [hs, Expr.symbols], hrest⟩
  · obtain ⟨hm, hlt⟩ := hmember hk hi
    obtain ⟨ss, hr', hs, hrest⟩ := parseCallsFrom_sound (hm.wellShaped hc)
      (by simp only [Expr.WellRanked]; exact ⟨hrank, hnoset (.inr hk), hw⟩) (Nat.le_refl _)
      (fun h => by cases h) (fun _ => h₁) h
    exact ⟨_, hm.trans hr', by simp [hs, Expr.symbols], hrest⟩
termination_by (c.remaining, 8)

theorem parseArguments_sound {c d : Cursor} {es : List Expr} (hc : c.WellShaped) (h : (parseArguments c).Yields es d) :
    c.Reads (Expr.closedSymbols es) d ∧ Expr.AllWellRanked es := by
  rcases parseArguments_yields.1 h with ⟨hk, rfl, rfl⟩ | ⟨-, h⟩
  · exact ⟨reads_bare hc hk (by decide), trivial⟩
  · obtain ⟨e, es', rfl, hr, hw⟩ := parseArgumentList_sound hc h
    exact ⟨hr, hw⟩
termination_by (c.remaining, 7)

theorem parseArgumentList_sound {c d : Cursor} {es : List Expr} (hc : c.WellShaped)
    (h : (parseArgumentList c).Yields es d) :
    ∃ e es', es = e :: es' ∧ c.Reads (e.symbols ++ Expr.furtherSymbols es') d ∧ Expr.AllWellRanked es := by
  obtain ⟨e, x, he, ⟨hk, rest, hrest, rfl⟩ | ⟨hk, rfl, rfl⟩⟩ := parseArgumentList_yields.1 h
  · obtain ⟨hr, hw, -⟩ := parseExpr_sound hc he
    have hx := he.nearer
    have hxa := x.remaining_advance_le
    have h₀ := hr.trans (reads_bare (hr.wellShaped hc) hk (by decide))
    obtain ⟨e', es', rfl, hr', hw'⟩ := parseArgumentList_sound (h₀.wellShaped hc) hrest
    exact ⟨e, e' :: es', rfl, by simpa [Expr.furtherSymbols] using h₀.trans hr', hw, hw'⟩
  · obtain ⟨hr, hw, -⟩ := parseExpr_sound hc he
    exact ⟨e, [], rfl, hr.trans (reads_bare (hr.wellShaped hc) hk (by decide)), hw, trivial⟩
termination_by (c.remaining, 6)

theorem parsePrimary_sound {c d : Cursor} {e : Expr} (hc : c.WellShaped) (h : (parsePrimary c).Yields e d) :
    c.Reads e.symbols d ∧ e.WellRanked ∧ 9 ≤ e.rank ∧ e.endsInSet = false ∧ e.isGetField = false := by
  rcases parsePrimary_yields.1 h with ⟨l, hl, rfl, rfl⟩ | ⟨hk, rfl, rfl⟩ | ⟨hk, inner, x, hi, hx, rfl, rfl⟩
  · exact ⟨by simpa [Expr.symbols] using reads_literal hc hl, by simp [Expr.WellRanked], Nat.le_refl _, rfl, rfl⟩
  · exact ⟨by simpa [Expr.symbols] using reads_ident hc hk, by simp [Expr.WellRanked], Nat.le_refl _, rfl, rfl⟩
  · have hlt := remaining_advance_lt_of_leftParen hk
    have h₀ := reads_bare hc hk (by decide)
    obtain ⟨hr, hw, -⟩ := parseExpr_sound (h₀.wellShaped hc) hi
    have hclose := reads_bare (hr.wellShaped (h₀.wellShaped hc)) hx (by decide)
    refine ⟨?_, ?_, Nat.le_refl _, rfl, rfl⟩
    · simp only [Expr.symbols]
      exact (h₀.trans hr).trans hclose
    · simpa only [Expr.WellRanked] using hw
termination_by (c.remaining, 1)

end

end Soundness

/-! ## Completeness -/

section Completeness

theorem literal?_of_symbol {t : Token} {l : Literal} (h : t.symbol = l.symbol) : t.literal? = some l := by
  obtain ⟨kind, payload, position⟩ := t
  rcases l with _ | (_ | _) | _ | _ | _ | _ <;>
    (obtain ⟨rfl, rfl⟩ := Prod.mk.inj h
     rfl)

/-- Names that are written alike differ only in their places. -/
theorem unplaced_ident {c : Cursor} {i : Ident} (h : c.current.symbol = i.symbol) : c.ident.name = i.name := by
  have hp : c.current.payload = .text i.name := congrArg Prod.snd h
  simp [Cursor.ident, Token.text, hp, Payload.text?]

/-- An expression may stand before an operator that it is the left operand of. -/
theorem Expr.mayPrecede_operator {e : Expr} (op : Operator) (h : e.endsInSet = false) : e.MayPrecede op.kind := by
  refine ⟨?_, ?_, fun hs => by rw [h] at hs; cases hs⟩ <;>
    (rcases op with op | op <;> cases op <;> decide)

/-- A tree that is read with places of its own, up to the operators after it. Reading goes on with the loop that takes
these operators. -/
def Expr.ReadAsOperation (e : Expr) (level : Nat) (c d : Cursor) : Prop :=
  ∃ e', e'.unplaced = e.unplaced ∧ ∃ h : d.remaining < c.remaining, ∀ x y,
    (parseOperatorsFrom level e' d h).Yields x y → (parseOperation level c).Yields x y

/-- The same for the calls and members after it. -/
def Expr.ReadAsOperand (e : Expr) (c d : Cursor) : Prop :=
  ∃ e', e'.unplaced = e.unplaced ∧ ∃ h : d.remaining < c.remaining, ∀ x y,
    (parseCallsFrom e' d h).Yields x y → (parseOperand c).Yields x y

/-- A primary expression is read as an operand with no calls so far. -/
theorem readAsOperand_primary {c d : Cursor} {e e' : Expr} (hk : UnaryOp.ofKind? c.kind = none)
    (h : (parsePrimary c).Yields e' d) (he : e'.unplaced = e.unplaced) : e.ReadAsOperand c d :=
  ⟨e', he, h.nearer, fun _ _ hx => parseOperand_yields.2 (.inr ⟨hk, e', d, h.nearer, h, hx⟩)⟩

/-- An operation is read by the loop that has read its left operand. -/
theorem readAsOperation_node {op : Operator} {left right : Expr} {p : Position} {level : Nat} {c x d : Cursor}
    (hl : level ≤ op.level) (hleft : left.ReadAsOperation level c x) (hk : x.kind = op.kind)
    (hright : right.ReadAsOperation (op.level + 1) x.advance d)
    (hop : ∀ op', Operator.ofKind? d.kind = some op' → op'.level ≤ op.level) :
    (op.node left right p).ReadAsOperation level c d := by
  obtain ⟨left', hul, hx, hleft⟩ := hleft
  obtain ⟨right', hur, hd, hright⟩ := hright
  have hr : (parseOperation (op.level + 1) x.advance).Yields right' d :=
    hright _ _ (parseOperatorsFrom_yields.2 (.inl ⟨fun op' ho => Nat.lt_succ_of_le (hop op' ho), rfl, rfl⟩))
  have hdc : d.remaining < c.remaining := by
    have := x.remaining_advance_le
    omega
  refine ⟨op.node left' right' x.current.position, ?_, hdc, fun y z h => hleft y z ?_⟩
  · rw [Operator.unplaced_node, Operator.unplaced_node, hul, hur]
  · exact parseOperatorsFrom_yields.2 (.inr ⟨op, right', d, hdc, Operator.ofKind?_eq_some_iff.2 hk.symm, hl, hr, h⟩)

/-- A name before an equals sign is read as the target of an assignment. -/
theorem parseOperation_name {level : Nat} {c : Cursor} (hk : c.kind = .identifier) (h : c.advance.kind = .equal) :
    (parseOperation level c).Yields (.name c.ident) c.advance := by
  have hlt := remaining_advance_lt_of_identifier hk
  refine parseOperation_yields.2 ⟨.name c.ident, c.advance, hlt, parseOperand_yields.2 (.inr ⟨?_, ?_⟩), ?_⟩
  · rw [hk]
    rfl
  · exact ⟨_, _, hlt, parsePrimary_yields.2 (.inr (.inl ⟨hk, rfl, rfl⟩)),
      parseCallsFrom_yields.2 (.inl ⟨by rw [h]; decide, by rw [h]; decide, rfl, rfl⟩)⟩
  · exact parseOperatorsFrom_yields.2 (.inl ⟨fun op ho => (by rw [h] at ho; cases ho), rfl, rfl⟩)

mutual

theorem parseCalls_complete {c d : Cursor} (e : Expr) (hw : e.WellRanked) (hrank : 8 ≤ e.rank)
    (hset : e.endsInSet = true → d.kind.continuesExpr = false)
    (hget : e.isGetField = true → d.kind ≠ .leftParen ∧ d.kind ≠ .equal) (h : c.Reads e.symbols d) :
    e.ReadAsOperand c d := by
  match e with
  | .literal l p =>
    rw [Expr.symbols] at h
    obtain ⟨hs, hk, hrest⟩ := h.cons_inv l.symbol_ne_endOfInput
    obtain rfl := hrest.nil_inv
    refine readAsOperand_primary ?_ (parsePrimary_yields.2 (.inl ⟨l, literal?_of_symbol hs, rfl, rfl⟩)) ?_
    · rw [hk]
      rcases l with _ | (_ | _) | _ | _ | _ | _ <;> rfl
    · simp only [Expr.unplaced]
  | .name i =>
    rw [Expr.symbols] at h
    obtain ⟨hs, hk, hrest⟩ := h.cons_inv (by decide)
    obtain rfl := hrest.nil_inv
    refine readAsOperand_primary (by rw [hk]; rfl) (parsePrimary_yields.2 (.inr (.inl ⟨hk, rfl, rfl⟩))) ?_
    simp only [Expr.unplaced, unplaced_ident hs]
  | .grouping inner p =>
    simp only [Expr.symbols, List.cons_append] at h
    simp only [Expr.WellRanked] at hw
    obtain ⟨hs, hk, hrest⟩ := h.cons_inv (by decide)
    obtain ⟨x, hi, hr⟩ := hrest.split
    obtain ⟨hs', hk', hrest'⟩ := hr.cons_inv (by decide)
    obtain rfl := hrest'.nil_inv
    obtain ⟨inner', hu, hy⟩ := parseExpr_complete inner hw (by rw [hk']; rfl) hi
    refine readAsOperand_primary (by rw [hk]; rfl)
      (parsePrimary_yields.2 (.inr (.inr ⟨hk, inner', x, hy, hk', rfl, rfl⟩))) ?_
    simp only [Expr.unplaced, hu]
  | .call callee arguments p =>
    simp only [Expr.symbols] at h
    simp only [Expr.WellRanked] at hw
    obtain ⟨hrank', hs', hg', hw', hwa⟩ := hw
    obtain ⟨x, hc, hr⟩ := h.split
    obtain ⟨-, hk, ha⟩ := hr.cons_inv (by decide)
    obtain ⟨callee', hu, hx, hgo⟩ := parseCalls_complete callee hw' hrank' (fun h => by rw [hs'] at h; cases h)
      (fun h => by rw [hg'] at h; cases h) hc
    obtain ⟨arguments', hua, hya⟩ := parseArguments_complete arguments hwa ha
    have hlt : d.remaining < c.remaining := by
      have h₁ := hya.nearer
      have h₂ := x.remaining_advance_le
      omega
    refine ⟨.call callee' arguments' x.current.position, ?_, hlt, fun y z hy => hgo y z ?_⟩
    · simp only [Expr.unplaced, hu, hua]
    · exact parseCallsFrom_yields.2 (.inr (.inl ⟨hk, arguments', d, hlt, hya, hy⟩))
  | .callMethod receiver method arguments =>
    simp only [Expr.symbols] at h
    simp only [Expr.WellRanked] at hw
    obtain ⟨hrank', hs', hw', hwa⟩ := hw
    obtain ⟨x, hc, hr⟩ := h.split
    obtain ⟨-, hk, hr⟩ := hr.cons_inv (by decide)
    obtain ⟨hsm, hkm, hr⟩ := hr.cons_inv (by decide)
    obtain ⟨-, hkp, ha⟩ := hr.cons_inv (by decide)
    obtain ⟨receiver', hu, hx, hgo⟩ := parseCalls_complete receiver hw' hrank' (fun h => by rw [hs'] at h; cases h)
      (fun _ => by rw [hk]; exact ⟨by decide, by decide⟩) hc
    obtain ⟨arguments', hua, hya⟩ := parseArguments_complete arguments hwa ha
    have hlt : d.remaining < c.remaining := by
      have h₁ := hya.nearer
      have h₂ := x.remaining_advance_le
      have h₃ := x.advance.remaining_advance_le
      have h₄ := x.advance.advance.remaining_advance_le
      omega
    refine ⟨.callMethod receiver' x.advance.ident arguments', ?_, hlt, fun y z hy => hgo y z ?_⟩
    · simp only [Expr.unplaced, hu, hua, unplaced_ident hsm]
    · exact parseCallsFrom_yields.2 (.inr (.inr (.inl ⟨hk, hkm, hkp, arguments', d, hlt, hya, hy⟩)))
  | .getField receiver field =>
    simp only [Expr.symbols] at h
    simp only [Expr.WellRanked] at hw
    obtain ⟨hrank', hs', hw'⟩ := hw
    obtain ⟨x, hc, hr⟩ := h.split
    obtain ⟨-, hk, hr⟩ := hr.cons_inv (by decide)
    obtain ⟨hsm, hkm, hr⟩ := hr.cons_inv (by decide)
    obtain rfl := hr.nil_inv
    obtain ⟨receiver', hu, hx, hgo⟩ := parseCalls_complete receiver hw' hrank' (fun h => by rw [hs'] at h; cases h)
      (fun _ => by rw [hk]; exact ⟨by decide, by decide⟩) hc
    have hlt : x.advance.advance.remaining < c.remaining := by
      have h₁ := x.remaining_advance_le
      have h₂ := x.advance.remaining_advance_le
      omega
    refine ⟨.getField receiver' x.advance.ident, ?_, hlt, fun y z hy => hgo y z ?_⟩
    · simp only [Expr.unplaced, hu, unplaced_ident hsm]
    · obtain ⟨h₁, h₂⟩ := hget rfl
      exact parseCallsFrom_yields.2 (.inr (.inr (.inr (.inr ⟨hk, hkm, h₁, h₂, hlt, hy⟩))))
  | .setField receiver field value =>
    simp only [Expr.symbols] at h
    simp only [Expr.WellRanked] at hw
    obtain ⟨hrank', hs', hw', hwv⟩ := hw
    obtain ⟨x, hc, hr⟩ := h.split
    obtain ⟨-, hk, hr⟩ := hr.cons_inv (by decide)
    obtain ⟨hsm, hkm, hr⟩ := hr.cons_inv (by decide)
    obtain ⟨-, hkp, hv⟩ := hr.cons_inv (by decide)
    obtain ⟨receiver', hu, hx, hgo⟩ := parseCalls_complete receiver hw' hrank' (fun h => by rw [hs'] at h; cases h)
      (fun _ => by rw [hk]; exact ⟨by decide, by decide⟩) hc
    obtain ⟨value', huv, hyv⟩ := parseExpr_complete value hwv (hset rfl) hv
    have hlt : d.remaining < c.remaining := by
      have h₁ := hyv.nearer
      have h₂ := x.remaining_advance_le
      have h₃ := x.advance.remaining_advance_le
      have h₄ := x.advance.advance.remaining_advance_le
      omega
    refine ⟨.setField receiver' x.advance.ident value', ?_, hlt, fun y z hy => hgo y z ?_⟩
    · simp only [Expr.unplaced, hu, huv, unplaced_ident hsm]
    · exact parseCallsFrom_yields.2 (.inr (.inr (.inr (.inl ⟨hk, hkm, hkp, value', d, hlt, hyv, hy⟩))))
  | .unary .. | .assign .. => simp [Expr.rank] at hrank
  | .binary op .. => exact absurd (Nat.le_trans hrank (Operator.level_le _)) (by decide)
  | .logical op .. => exact absurd (Nat.le_trans hrank (Operator.level_le _)) (by decide)
termination_by (sizeOf e, 0)

theorem parseOperand_complete {c d : Cursor} (e : Expr) (hw : e.WellRanked) (hrank : 7 ≤ e.rank)
    (hp : e.MayPrecede d.kind) (hd : d.kind ≠ .equal) (h : c.Reads e.symbols d) :
    ∃ e', e'.unplaced = e.unplaced ∧ (parseOperand c).Yields e' d := by
  rcases e.eq_of_rank with ⟨target, value, rfl⟩ | ⟨op, left, right, p, rfl⟩ | ⟨op, operand, p, rfl⟩ | hr
  · simp [Expr.rank] at hrank
  · rw [Operator.rank_node] at hrank
    have := op.level_le
    omega
  · simp only [Expr.symbols] at h
    simp only [Expr.WellRanked] at hw
    obtain ⟨-, hk, ho⟩ := h.cons_inv (by cases op <;> decide)
    obtain ⟨operand', hu, hy⟩ := parseOperand_complete operand hw.2 hw.1 hp hd ho
    refine ⟨.unary op operand' c.current.position, by simp only [Expr.unplaced, hu], ?_⟩
    exact parseOperand_yields.2 (.inl ⟨op, operand', UnaryOp.ofKind?_eq_some_iff.2 hk.symm, hy, rfl⟩)
  · obtain ⟨e', hu, hx, hgo⟩ := parseCalls_complete e hw hr hp.2.2 (fun _ => ⟨hp.1, hd⟩) h
    exact ⟨e', hu, hgo _ _ (parseCallsFrom_yields.2 (.inl ⟨hp.1, hp.2.1, rfl, rfl⟩))⟩
termination_by (sizeOf e, 1)

theorem parseOperation_complete {level : Nat} {c d : Cursor} (e : Expr) (hw : e.WellRanked) (hl : 1 ≤ level)
    (hrank : level ≤ e.rank) (hp : e.MayPrecede d.kind) (hd : d.kind ≠ .equal)
    (hop : ∀ op, Operator.ofKind? d.kind = some op → op.level ≤ e.rank) (h : c.Reads e.symbols d) :
    e.ReadAsOperation level c d := by
  have operand : 7 ≤ e.rank → e.ReadAsOperation level c d := fun hr => by
    obtain ⟨e', hu, hy⟩ := parseOperand_complete e hw hr hp hd h
    exact ⟨e', hu, hy.nearer, fun _ _ hx => parseOperation_yields.2 ⟨e', d, hy.nearer, hy, hx⟩⟩
  rcases e.eq_of_rank with ⟨target, value, rfl⟩ | ⟨op, left, right, p, rfl⟩ | ⟨op, inner, p, rfl⟩ | hr
  · simp only [Expr.rank] at hrank
    omega
  · have h₁ := op.sizeOf_left_lt left right p
    have h₂ := op.sizeOf_right_lt left right p
    rw [Operator.rank_node] at hrank hop
    rw [Operator.symbols_node] at h
    obtain ⟨hleft, hright, hs, hwl, hwr⟩ := (op.wellRanked_node left right p).1 hw
    obtain ⟨x, hrl, hrest⟩ := h.split
    obtain ⟨-, hk, hrr⟩ := hrest.cons_inv op.kind_ne_endOfInput
    have hkop : Operator.ofKind? x.kind = some op := Operator.ofKind?_eq_some_iff.2 hk.symm
    refine readAsOperation_node hrank ?_ hk ?_ hop
    · refine parseOperation_complete left hwl hl (by omega) ?_ ?_ (fun op' ho => ?_) hrl
      · rw [hk]
        exact Expr.mayPrecede_operator op hs
      · intro he
        rw [he] at hkop
        cases hkop
      · rw [hkop] at ho
        cases ho
        exact hleft
    · refine parseOperation_complete right hwr (by omega) hright ?_ hd (fun op' ho => ?_) hrr
      · exact ⟨hp.1, hp.2.1, fun h => hp.2.2 (by rw [Operator.endsInSet_node]; exact h)⟩
      · have := hop op' ho
        omega
  · exact operand (Nat.le_refl 7)
  · exact operand (by omega)
termination_by (sizeOf e, 2)

theorem parseExpr_complete {c d : Cursor} (e : Expr) (hw : e.WellRanked) (hd : d.kind.continuesExpr = false)
    (h : c.Reads e.symbols d) : ∃ e', e'.unplaced = e.unplaced ∧ (parseExpr c).Yields e' d := by
  obtain ⟨-, -, hequal, hnone⟩ := TokenKind.continuesExpr_eq_false.1 hd
  have hnop : ∀ {P : Operator → Prop} op, Operator.ofKind? d.kind = some op → P op := fun op ho => by
    rw [hnone] at ho
    cases ho
  have operation : 1 ≤ e.rank → ∃ e', e'.unplaced = e.unplaced ∧ (parseExpr c).Yields e' d := fun hr => by
    obtain ⟨e', hu, hlt, hgo⟩ :=
      parseOperation_complete e hw (Nat.le_refl 1) hr (Expr.mayPrecede_of_continuesExpr hd) hequal hnop h
    have hy := hgo e' d (parseOperatorsFrom_yields.2 (.inl ⟨hnop, rfl, rfl⟩))
    exact ⟨e', hu, parseExpr_yields.2 ⟨e', d, hy, .inl ⟨hequal, rfl, rfl⟩⟩⟩
  rcases e.eq_of_rank with ⟨target, value, rfl⟩ | ⟨op, left, right, p, rfl⟩ | ⟨op, inner, p, rfl⟩ | hr
  · simp only [Expr.symbols] at h
    simp only [Expr.WellRanked] at hw
    obtain ⟨hs, hk, hrest⟩ := h.cons_inv (by decide)
    obtain ⟨-, hk', hv⟩ := hrest.cons_inv (by decide)
    obtain ⟨value', hu, hy⟩ := parseExpr_complete value hw hd hv
    refine ⟨.assign c.ident value', by simp only [Expr.unplaced, hu, unplaced_ident hs], ?_⟩
    exact parseExpr_yields.2 ⟨_, _, parseOperation_name hk hk', .inr ⟨hk', _, value', rfl, hy, rfl⟩⟩
  · exact operation (by rw [Operator.rank_node]; exact op.level_pos)
  · exact operation (by simp [Expr.rank])
  · exact operation (by omega)
termination_by (sizeOf e, 3)

theorem parseArguments_complete {c d : Cursor} (es : List Expr) (hw : Expr.AllWellRanked es)
    (h : c.Reads (Expr.closedSymbols es) d) :
    ∃ es', Expr.unplacedAll es' = Expr.unplacedAll es ∧ (parseArguments c).Yields es' d := by
  match es with
  | [] =>
    simp only [Expr.closedSymbols] at h
    obtain ⟨-, hk, hrest⟩ := h.cons_inv (by decide)
    obtain rfl := hrest.nil_inv
    exact ⟨[], rfl, parseArguments_yields.2 (.inl ⟨hk, rfl, rfl⟩)⟩
  | e :: es =>
    simp only [Expr.closedSymbols] at h
    obtain ⟨es', hu, hy⟩ := parseArgumentList_complete e es hw h
    obtain ⟨s, ss, hs, hk⟩ := e.symbols_eq_cons
    rw [hs] at h
    obtain ⟨-, hk', -⟩ := h.cons_inv (by intro he; rw [he] at hk; cases hk)
    refine ⟨es', hu, parseArguments_yields.2 (.inr ⟨fun he => ?_, hy⟩)⟩
    rw [← hk', he] at hk
    cases hk
termination_by (sizeOf es, 5)

theorem parseArgumentList_complete {c d : Cursor} (e : Expr) (es : List Expr) (hw : Expr.AllWellRanked (e :: es))
    (h : c.Reads (e.symbols ++ Expr.furtherSymbols es) d) :
    ∃ es', Expr.unplacedAll es' = Expr.unplacedAll (e :: es) ∧ (parseArgumentList c).Yields es' d := by
  simp only [Expr.AllWellRanked] at hw
  obtain ⟨x, he, hrest⟩ := h.split
  match es with
  | [] =>
    simp only [Expr.furtherSymbols] at hrest
    obtain ⟨-, hk, hrest⟩ := hrest.cons_inv (by decide)
    obtain rfl := hrest.nil_inv
    obtain ⟨e', hu, hy⟩ := parseExpr_complete e hw.1 (by rw [hk]; rfl) he
    exact ⟨[e'], by simp only [Expr.unplacedAll, hu], parseArgumentList_yields.2 ⟨e', x, hy, .inr ⟨hk, rfl, rfl⟩⟩⟩
  | e₂ :: es =>
    simp only [Expr.furtherSymbols, List.cons_append] at hrest
    obtain ⟨-, hk, hrest⟩ := hrest.cons_inv (by decide)
    obtain ⟨e', hu, hy⟩ := parseExpr_complete e hw.1 (by rw [hk]; rfl) he
    obtain ⟨es', hus, hys⟩ := parseArgumentList_complete e₂ es hw.2 hrest
    refine ⟨e' :: es', ?_, parseArgumentList_yields.2 ⟨e', x, hy, .inl ⟨hk, es', hys, rfl⟩⟩⟩
    rw [Expr.unplacedAll, Expr.unplacedAll, hu, hus]
termination_by (sizeOf (e :: es), 4)

end

end Completeness

/-! ## The readers invert writing -/

/-- Reading an expression is the inverse of writing its tree as symbols. What reading passes are the symbols of the tree
that it yields, which keeps to the precedence; and every tree that does is read from its symbols, up to places, if
nothing that continues an expression follows them. -/
theorem parseExpr_inverts_symbols :
    (∀ (c d : Cursor) (e : Expr), c.WellShaped → (parseExpr c).Yields e d → c.Reads e.symbols d ∧ e.WellRanked) ∧
    (∀ (e : Expr) (c d : Cursor), e.WellRanked → c.Reads e.symbols d → d.kind.continuesExpr = false →
      ∃ e', e'.unplaced = e.unplaced ∧ (parseExpr c).Yields e' d) := by
  constructor
  · intro c d e hc h
    obtain ⟨hr, hw, -⟩ := parseExpr_sound hc h
    exact ⟨hr, hw⟩
  · intro e c d hw hr hd
    exact parseExpr_complete e hw hd hr

/-- The reading of `-a.f = b + 1`: the written value takes in the sum, and what is read is what was written. -/
theorem negated_write_inverts_symbols :
    let write : Expr := .unary .neg (.setField (.name ⟨"a", .nowhere⟩) ⟨"f", .nowhere⟩
      (.binary .add (.name ⟨"b", .nowhere⟩) (.literal (.int 1) .nowhere) .nowhere)) .nowhere
    let c : Cursor := ofList (write.symbols.map .ofSymbol)
    let d : Cursor := ⟨(write.symbols.map .ofSymbol).reverse, []⟩
    ∃ e, e.unplaced = write.unplaced ∧ (parseExpr c).Yields e d ∧ c.Reads e.symbols d ∧ e.WellRanked := by
  intro write c d
  have hw : write.WellRanked := by simp [write, Expr.WellRanked, Expr.rank, Expr.endsInSet, Operator.level]
  have hc : c.WellShaped := by
    simp [c, write, ofList, WellShaped, Expr.symbols, Token.WellShaped, Token.ofSymbol, Literal.symbol, UnaryOp.kind,
      Operator.kind]
  obtain ⟨e, hu, hy⟩ := parseExpr_inverts_symbols.2 write c d hw (reads_ofSymbols _) rfl
  obtain ⟨hr, hw'⟩ := parseExpr_inverts_symbols.1 c d e hc hy
  exact ⟨e, hu, hy, hr, hw'⟩

/-- A callee has to be no field: the symbols of a call of a field are read as a call of a method. -/
theorem call_of_field_read_as_method :
    ¬∀ (callee : Expr) (arguments : List Expr) (p : Position) (c d : Cursor), 8 ≤ callee.rank →
      callee.endsInSet = false → callee.WellRanked → Expr.AllWellRanked arguments →
      c.Reads (Expr.call callee arguments p).symbols d → d.kind.continuesExpr = false →
      ∃ e, e.unplaced = (Expr.call callee arguments p).unplaced ∧ (parseExpr c).Yields e d := by
  intro h
  let method : Expr := .callMethod (.name ⟨"a", .nowhere⟩) ⟨"f", .nowhere⟩ []
  have hr := reads_ofSymbols method.symbols
  obtain ⟨e, hu, hy⟩ := h (.getField (.name ⟨"a", .nowhere⟩) ⟨"f", .nowhere⟩) [] .nowhere _ _ (Nat.le_refl 8) rfl
    (by simp [Expr.WellRanked, Expr.rank, Expr.endsInSet]) trivial (by simpa [method, Expr.symbols] using hr) rfl
  obtain ⟨e', hu', hy'⟩ := parseExpr_complete method
    (by simp [method, Expr.WellRanked, Expr.rank, Expr.endsInSet, Expr.AllWellRanked]) rfl hr
  rw [(hy.unique hy').1, hu'] at hu
  simp [method, Expr.unplaced] at hu

end QueryTemplate
