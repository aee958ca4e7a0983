import Mathlib.Data.List.TakeWhile
import QueryTemplate.Proofs.Tree.Headers
import QueryTemplate.Proofs.Tree.Symbols

/-!
# Nothing is read past the end of the input

What a list of tokens is read as depends on the tokens before the first end of input and on no other: not on the place
that this end has, not on what stands behind it, and not on whether it is there. Two cursors that have passed the same
tokens and have the same ones ahead up to that end (`Cursor.Level`) are read alike by every reader, to the same value or
to the same error at the same place (`Parsed.Agrees`).

The loop over the statements comes to its end within as many turns as there are such tokens, since each turn passes one
at least, and then it has passed all of them (`parse_reads_beforeEnd`).
-/

namespace QueryTemplate

/-- The tokens before the first end of input. -/
def beforeEnd (ts : List Token) : List Token := ts.takeWhile (·.kind ≠ .endOfInput)

theorem beforeEnd_cons {t : Token} (ts : List Token) (ht : t.kind ≠ .endOfInput) :
    beforeEnd (t :: ts) = t :: beforeEnd ts := by
  simp [beforeEnd, ht]

theorem beforeEnd_cons_end {t : Token} (ts : List Token) (ht : t.kind = .endOfInput) : beforeEnd (t :: ts) = [] := by
  simp [beforeEnd, ht]

theorem beforeEnd_append {ts : List Token} (h : ∀ t ∈ ts, t.kind ≠ .endOfInput) (us : List Token) :
    beforeEnd (ts ++ us) = ts ++ beforeEnd us :=
  List.takeWhile_append_of_pos fun t ht => by simpa using h t ht

theorem kind_ne_of_mem_beforeEnd {ts : List Token} {t : Token} (h : t ∈ beforeEnd ts) : t.kind ≠ .endOfInput := by
  simpa using List.mem_takeWhile_imp h

/-! ## Cursors -/

namespace Cursor

/-- Cursors in the text `ts` and in another one, behind the same tokens and before the same ones up to the end of input.
They are not both before the first token with nothing ahead: only there does the place of a fault depend on that end. -/
structure Level (ts : List Token) (c c' : Cursor) : Prop where
  passed : c'.passed = c.passed
  ahead : beforeEnd c'.ahead = beforeEnd c.ahead
  text : c.passed.reverse ++ c.ahead = ts
  within : ∀ t ∈ c.passed, t.kind ≠ .endOfInput
  started : c.kind = .endOfInput → c.passed ≠ []

theorem kind_eq (c : Cursor) : c.kind = ((beforeEnd c.ahead).head?.map Token.kind).getD .endOfInput := by
  obtain ⟨passed, _ | ⟨t, ts⟩⟩ := c
  · rfl
  by_cases ht : t.kind = .endOfInput
  · rw [beforeEnd_cons_end ts ht]
    exact ht
  · rw [beforeEnd_cons ts ht]
    rfl

theorem exists_cons_of_kind {c : Cursor} (hk : c.kind ≠ .endOfInput) :
    ∃ t ts, c = ⟨c.passed, t :: ts⟩ ∧ t.kind ≠ .endOfInput := by
  obtain ⟨passed, _ | ⟨t, ts⟩⟩ := c
  · exact absurd rfl hk
  · exact ⟨t, ts, rfl, hk⟩

theorem advance_cons {t : Token} (passed ts : List Token) (ht : t.kind ≠ .endOfInput) :
    advance ⟨passed, t :: ts⟩ = ⟨t :: passed, ts⟩ := if_neg ht

theorem advance_of_end {c : Cursor} (hk : c.kind = .endOfInput) : c.advance = c := by
  obtain ⟨passed, _ | ⟨t, ts⟩⟩ := c
  · rfl
  · exact if_pos hk

theorem faultPosition_of_ne {c : Cursor} (hk : c.kind ≠ .endOfInput) : c.faultPosition = c.current.position := by
  unfold faultPosition
  split
  next he _ => exact absurd he hk
  next => rfl

namespace Level

variable {ts : List Token} {c c' : Cursor} {k : TokenKind}

theorem kind (h : Level ts c c') : c'.kind = c.kind := by
  rw [kind_eq, h.ahead, ← kind_eq]

/-- Before the end of input the same token is ahead, and both cursors can pass it. -/
theorem exists_cons (h : Level ts c c') (hk : c.kind ≠ .endOfInput) : ∃ passed t us us',
    c = ⟨passed, t :: us⟩ ∧ c' = ⟨passed, t :: us'⟩ ∧ t.kind ≠ .endOfInput ∧ beforeEnd us' = beforeEnd us := by
  obtain ⟨t, us, hc, ht⟩ := exists_cons_of_kind hk
  obtain ⟨t', us', hc', ht'⟩ := exists_cons_of_kind (c := c') (h.kind ▸ hk)
  have hahead : beforeEnd (t' :: us') = beforeEnd (t :: us) :=
    (congrArg (beforeEnd ·.ahead) hc').symm.trans (h.ahead.trans (congrArg (beforeEnd ·.ahead) hc))
  rw [beforeEnd_cons us ht, beforeEnd_cons us' ht'] at hahead
  obtain ⟨rfl, hus⟩ := List.cons.inj hahead
  exact ⟨c.passed, t', us, us', hc, h.passed ▸ hc', ht, hus⟩

theorem current (h : Level ts c c') (hk : c.kind = k) (hne : k ≠ .endOfInput := by decide) :
    c'.current = c.current := by
  obtain ⟨passed, t, us, us', rfl, rfl, -⟩ := h.exists_cons (hk ▸ hne)
  rfl

theorem ident (h : Level ts c c') (hk : c.kind = .identifier) : c'.ident = c.ident := by
  rw [Cursor.ident, Cursor.ident, h.current hk]

theorem literal? (h : Level ts c c') : c'.current.literal? = c.current.literal? := by
  by_cases hk : c.kind = .endOfInput
  · have hnone : ∀ t : Token, t.kind = .endOfInput → t.literal? = none := fun t ht => by simp [Token.literal?, ht]
    rw [hnone _ hk, hnone _ (h.kind.trans hk)]
  · rw [h.current rfl hk]

theorem advance (h : Level ts c c') : Level ts c.advance c'.advance := by
  by_cases hk : c.kind = .endOfInput
  · rwa [advance_of_end hk, advance_of_end (h.kind.trans hk)]
  · obtain ⟨passed, t, us, us', rfl, rfl, ht, hus⟩ := h.exists_cons hk
    rw [advance_cons passed us ht, advance_cons passed us' ht]
    exact ⟨rfl, hus, by simpa using h.text, List.forall_mem_cons.2 ⟨ht, h.within⟩, fun _ => List.cons_ne_nil _ _⟩

theorem skipSemicolon (h : Level ts c c') : Level ts c.skipSemicolon c'.skipSemicolon := by
  unfold Cursor.skipSemicolon
  rw [h.kind]
  split
  · exact h.advance
  · exact h

theorem faultPosition (h : Level ts c c') : c'.faultPosition = c.faultPosition := by
  by_cases hk : c.kind = .endOfInput
  · obtain ⟨t, passed, hp⟩ := List.exists_cons_of_ne_nil (h.started hk)
    simp only [Cursor.faultPosition, h.kind, hk, h.passed, hp]
  · rw [faultPosition_of_ne hk, faultPosition_of_ne (h.kind ▸ hk), h.current rfl hk]

theorem fault (h : Level ts c c') (f : ParseFault) : c'.fault f = c.fault f := by
  rw [Cursor.fault, Cursor.fault, h.faultPosition]

/-- What the tokens before the end of input are, as a cursor has passed some of them. -/
theorem beforeEnd_text (h : Level ts c c') : beforeEnd ts = c.passed.reverse ++ beforeEnd c.ahead := by
  rw [← h.text, beforeEnd_append fun t ht => h.within t (List.mem_reverse.1 ht)]

end Level

end Cursor

/-! ## Readings -/

open Cursor

namespace Parsed

variable {α β : Type} {m m' n n' : Nat}

/-- The same value and cursors that go on alike, or the same error. -/
def Agrees (ts : List Token) : Parsed α n → Parsed α n' → Prop
  | ok a d _, ok a' d' _ => a' = a ∧ Level ts d d'
  | error e, error e' => e' = e
  | _, _ => False

variable {ts : List Token}

theorem Agrees.andThen {p : Parsed α m} {p' : Parsed α m'} (h : p.Agrees ts p')
    {f : (a : α) → (d : Cursor) → d.remaining < m → Parsed β n}
    {f' : (a : α) → (d : Cursor) → d.remaining < m' → Parsed β n'}
    (hf : ∀ a d d' hd hd', Level ts d d' → (f a d hd).Agrees ts (f' a d' hd')) :
    (p.andThen f).Agrees ts (p'.andThen f') := by
  cases p with
  | ok a d hd =>
    cases p' with
    | ok a' d' hd' =>
      obtain ⟨rfl, hlevel⟩ := h
      exact hf _ d d' hd hd' hlevel
    | error e' => exact h.elim
  | error e =>
    cases p' with
    | ok a' d' hd' => exact h.elim
    | error e' => exact h

theorem Agrees.map {p : Parsed α m} {p' : Parsed α m'} (h : p.Agrees ts p') {f f' : α → β} (hf : f' = f)
    {hn : m ≤ n} {hn' : m' ≤ n'} : (p.map f hn).Agrees ts (p'.map f' hn') :=
  h.andThen fun _ _ _ _ _ hlevel => ⟨hf ▸ rfl, hlevel⟩

end Parsed

open Parsed

section Readers

variable {ts : List Token} {c c' : Cursor}

theorem expect_agrees (what : Landmark) (hc : Level ts c c') : (c.expect what).Agrees ts (c'.expect what) := by
  unfold Cursor.expect
  split
  next hk =>
    rw [dif_pos (hc.kind.trans hk)]
    exact ⟨rfl, hc.advance⟩
  next hk =>
    rw [dif_neg (hc.kind ▸ hk), hc.kind]
    exact hc.fault _

theorem expectName_agrees (role : NameRole) (hc : Level ts c c') :
    (c.expectName role).Agrees ts (c'.expectName role) := by
  unfold Cursor.expectName
  split
  next hk =>
    rw [dif_pos (hc.kind.trans hk)]
    exact ⟨hc.ident hk, hc.advance⟩
  next hk =>
    rw [dif_neg (hc.kind ▸ hk), hc.kind]
    exact hc.fault _

/-! ## Expressions -/

theorem parseOperand_of_unary {op : UnaryOp} (ho : UnaryOp.ofKind? c.kind = some op) :
    parseOperand c = (parseOperand c.advance).map (.unary op · c.current.position)
      (Nat.le_of_lt (UnaryOp.remaining_advance_lt ho)) := by
  rw [parseOperand]
  split
  next op' ho' =>
    obtain rfl := Option.some.inj (ho.symm.trans ho')
    rfl
  next hnone => exact absurd (ho.symm.trans hnone) nofun

theorem parseOperand_of_primary (ho : UnaryOp.ofKind? c.kind = none) :
    parseOperand c = (parsePrimary c).andThen fun e d hd => parseCallsFrom e d hd := by
  rw [parseOperand]
  split
  next hsome =>
    rw [ho] at hsome
    cases hsome
  next => rfl

theorem parsePrimary_of_literal {l : Literal} (hl : c.current.literal? = some l) :
    parsePrimary c = .ok (.literal l c.current.position) c.advance
      (remaining_advance_lt (Token.kind_ne_endOfInput_of_literal? hl)) := by
  rw [parsePrimary]
  split
  next l' hl' =>
    obtain rfl := Option.some.inj (hl.symm.trans hl')
    rfl
  next hnone => exact absurd (hl.symm.trans hnone) nofun

theorem parsePrimary_of_none (hl : c.current.literal? = none) :
    parsePrimary c =
      if h : c.kind = .identifier then .ok (.name c.ident) c.advance (remaining_advance_lt_of_identifier h)
      else if h : c.kind = .leftParen then
        (parseExpr c.advance).andThen fun inner d hd =>
          (d.expect .closeGroup).map (fun _ => .grouping inner c.current.position)
            (Nat.le_of_lt (Nat.lt_trans hd (remaining_advance_lt_of_leftParen h)))
      else .error (c.fault (.expectedExpression c.kind)) := by
  rw [parsePrimary]
  split
  next hsome => exact absurd (hl.symm.trans hsome) nofun
  next => rfl

mutual

theorem parseExpr_agrees {c c' : Cursor} (hc : Level ts c c') : (parseExpr c).Agrees ts (parseExpr c') := by
  rw [parseExpr, parseExpr]
  refine (parseOperation_agrees 1 hc).andThen fun target d d' hd hd' hlevel => ?_
  rw [hlevel.kind]
  split
  next hk =>
    have := d.remaining_advance_le
    refine (parseExpr_agrees hlevel.advance).andThen fun value e e' he he' helevel => ?_
    cases target with
    | name target => exact ⟨rfl, helevel⟩
    | _ =>
      rw [hlevel.current hk]
      rfl
  next => exact ⟨rfl, hlevel⟩
termination_by (c.remaining, 5)

theorem parseOperation_agrees (level : Nat) {c c' : Cursor} (hc : Level ts c c') :
    (parseOperation level c).Agrees ts (parseOperation level c') := by
  rw [parseOperation, parseOperation]
  exact (parseOperand_agrees hc).andThen fun left d d' hd hd' hlevel =>
    parseOperatorsFrom_agrees level left hlevel hd hd'
termination_by (c.remaining, 3)

theorem parseOperatorsFrom_agrees {n n' : Nat} (level : Nat) (left : Expr) {c c' : Cursor} (hc : Level ts c c')
    (hn : c.remaining < n) (hn' : c'.remaining < n') :
    (parseOperatorsFrom level left c hn).Agrees ts (parseOperatorsFrom level left c' hn') := by
  rw [parseOperatorsFrom, parseOperatorsFrom, hc.kind]
  split
  next op ho =>
    split
    · have hk := (Operator.ofKind?_eq_some_iff.1 ho).symm
      have hlt : c.advance.remaining < c.remaining := remaining_advance_lt (hk ▸ op.kind_ne_endOfInput)
      rw [hc.current hk op.kind_ne_endOfInput]
      exact (parseOperation_agrees (op.level + 1) hc.advance).andThen fun right d d' hd hd' hlevel =>
        parseOperatorsFrom_agrees level _ hlevel _ _
    · exact ⟨rfl, hc⟩
  next => exact ⟨rfl, hc⟩
termination_by (c.remaining, 4)

theorem parseOperand_agrees {c c' : Cursor} (hc : Level ts c c') : (parseOperand c).Agrees ts (parseOperand c') := by
  cases ho : UnaryOp.ofKind? c.kind with
  | some op =>
    have := UnaryOp.remaining_advance_lt ho
    have hk := (UnaryOp.ofKind?_eq_some_iff.1 ho).symm
    rw [parseOperand_of_unary ho, parseOperand_of_unary (c := c') (hc.kind ▸ ho),
      hc.current hk (by cases op <;> decide)]
    exact (parseOperand_agrees hc.advance).map rfl
  | none =>
    rw [parseOperand_of_primary ho, parseOperand_of_primary (c := c') (hc.kind ▸ ho)]
    exact (parsePrimary_agrees hc).andThen fun e d d' hd hd' hlevel => parseCallsFrom_agrees e hlevel hd hd'
termination_by (c.remaining, 2)

theorem parseCallsFrom_agrees {n n' : Nat} (e : Expr) {c c' : Cursor} (hc : Level ts c c')
    (hn : c.remaining < n) (hn' : c'.remaining < n') :
    (parseCallsFrom e c hn).Agrees ts (parseCallsFrom e c' hn') := by
  rw [parseCallsFrom, parseCallsFrom, hc.kind]
  split
  next hk =>
    have := remaining_advance_lt_of_leftParen hk
    rw [hc.current hk]
    exact (parseArguments_agrees hc.advance).andThen fun arguments d d' hd hd' hlevel =>
      parseCallsFrom_agrees _ hlevel _ _
  next hk =>
    have hlt : c.advance.remaining < c.remaining := remaining_advance_lt (by rw [hk]; decide)
    refine (expectName_agrees _ hc.advance).andThen fun member d d' hd hd' hlevel => ?_
    have := d.remaining_advance_le
    dsimp only
    rw [hlevel.kind]
    split
    · exact (parseArguments_agrees hlevel.advance).andThen fun arguments e e' he he' helevel =>
        parseCallsFrom_agrees _ helevel _ _
    · exact (parseExpr_agrees hlevel.advance).andThen fun value e e' he he' helevel =>
        parseCallsFrom_agrees _ helevel _ _
    · exact parseCallsFrom_agrees _ hlevel _ _
  next => exact ⟨rfl, hc⟩
termination_by (c.remaining, 8)

theorem parseArguments_agrees {c c' : Cursor} (hc : Level ts c c') :
    (parseArguments c).Agrees ts (parseArguments c') := by
  rw [parseArguments, parseArguments]
  split
  next hk =>
    rw [dif_pos (hc.kind.trans hk)]
    exact ⟨rfl, hc.advance⟩
  next hk =>
    rw [dif_neg (hc.kind ▸ hk)]
    exact parseArgumentList_agrees hc
termination_by (c.remaining, 7)

theorem parseArgumentList_agrees {c c' : Cursor} (hc : Level ts c c') :
    (parseArgumentList c).Agrees ts (parseArgumentList c') := by
  rw [parseArgumentList, parseArgumentList]
  refine (parseExpr_agrees hc).andThen fun e d d' hd hd' hlevel => ?_
  rw [hlevel.kind]
  split
  · have := d.remaining_advance_le
    exact (parseArgumentList_agrees hlevel.advance).map rfl
  · exact (expect_agrees _ hlevel).map rfl
termination_by (c.remaining, 6)

theorem parsePrimary_agrees {c c' : Cursor} (hc : Level ts c c') : (parsePrimary c).Agrees ts (parsePrimary c') := by
  cases hl : c.current.literal? with
  | some l =>
    have hl' := hc.literal?.trans hl
    rw [parsePrimary_of_literal hl, parsePrimary_of_literal hl']
    refine ⟨?_, hc.advance⟩
    rw [hc.current rfl (Token.kind_ne_endOfInput_of_literal? hl)]
  | none =>
    rw [parsePrimary_of_none hl, parsePrimary_of_none (hc.literal?.trans hl)]
    split
    next hk =>
      rw [dif_pos (hc.kind.trans hk), hc.ident hk]
      exact ⟨rfl, hc.advance⟩
    next hi =>
      have hi' : ¬c'.kind = .identifier := hc.kind ▸ hi
      rw [dif_neg hi']
      split
      next hk =>
        have := remaining_advance_lt_of_leftParen hk
        rw [dif_pos (hc.kind.trans hk), hc.current hk]
        exact (parseExpr_agrees hc.advance).andThen fun inner d d' hd hd' hlevel => (expect_agrees _ hlevel).map rfl
      next hk =>
        have hk' : ¬c'.kind = .leftParen := hc.kind ▸ hk
        rw [dif_neg hk', hc.kind]
        exact hc.fault _
termination_by (c.remaining, 1)

end

/-! ## Statements -/

theorem parseExprStmt_agrees {make make' : Expr → Stmt} (hmake : make' = make) (hc : Level ts c c') :
    (parseExprStmt make c).Agrees ts (parseExprStmt make' c') := by
  rw [parseExprStmt, parseExprStmt]
  exact (parseExpr_agrees hc).andThen fun e d d' hd hd' hlevel => ⟨hmake ▸ rfl, hlevel.skipSemicolon⟩

theorem parseDefine_agrees (hc : Level ts c c') : (parseDefine c).Agrees ts (parseDefine c') := by
  rw [parseDefine, parseDefine]
  refine (expectName_agrees _ hc.advance).andThen fun name d d' hd hd' hlevel => ?_
  rw [hlevel.kind]
  split
  · exact (parseExpr_agrees hlevel.advance).andThen fun value e e' he he' helevel => ⟨rfl, helevel.skipSemicolon⟩
  · exact ⟨rfl, hlevel.skipSemicolon⟩

theorem parseParameterList_agrees {c c' : Cursor} (hc : Level ts c c') :
    (parseParameterList c).Agrees ts (parseParameterList c') := by
  rw [parseParameterList, parseParameterList]
  refine (expectName_agrees _ hc).andThen fun name d d' hd hd' hlevel => ?_
  rw [hlevel.kind]
  split
  · have := remaining_advance_lt_trans hd
    exact (parseParameterList_agrees hlevel.advance).map rfl
  · exact (expect_agrees _ hlevel).map rfl
termination_by c.remaining

theorem parseParameters_agrees (hc : Level ts c c') : (parseParameters c).Agrees ts (parseParameters c') := by
  rw [parseParameters, parseParameters]
  split
  next hk =>
    rw [dif_pos (hc.kind.trans hk)]
    exact ⟨rfl, hc.advance⟩
  next hk =>
    rw [dif_neg (hc.kind ▸ hk)]
    exact parseParameterList_agrees hc

theorem parsePath_agrees (role : NameRole) {c c' : Cursor} (hc : Level ts c c') :
    (parsePath role c).Agrees ts (parsePath role c') := by
  rw [parsePath, parsePath]
  refine (expectName_agrees role hc).andThen fun name d d' hd hd' hlevel => ?_
  rw [hlevel.kind]
  split
  · have := d.remaining_advance_le
    exact (parsePath_agrees _ hlevel.advance).map rfl
  · exact ⟨rfl, hlevel⟩
termination_by c.remaining

theorem parseImport_agrees (hc : Level ts c c') : (parseImport c).Agrees ts (parseImport c') := by
  rw [parseImport, parseImport]
  refine (parsePath_agrees _ hc.advance).andThen fun ⟨path, last⟩ d d' hd hd' hlevel => ?_
  have halias : (d'.kind = .identifier ∧ d'.current.payload.text? = some "as") ↔
      d.kind = .identifier ∧ d.current.payload.text? = some "as" := by
    rw [hlevel.kind]
    exact and_congr_right fun hk => by rw [hlevel.current hk]
  dsimp only
  simp only [halias]
  split
  · exact (expectName_agrees _ hlevel.advance).andThen fun localName e e' he he' helevel => ⟨rfl, helevel.skipSemicolon⟩
  · exact ⟨rfl, hlevel.skipSemicolon⟩

theorem parseReturn_agrees (hc : Level ts c c') (hk : c.kind = .returnWord) (hk' : c'.kind = .returnWord) :
    (parseReturn c hk).Agrees ts (parseReturn c' hk') := by
  rw [parseReturn, parseReturn]
  dsimp only
  rw [hc.advance.kind, hc.current hk]
  split
  · exact ⟨rfl, hc.advance.skipSemicolon⟩
  · exact ⟨rfl, hc.advance.skipSemicolon⟩
  · exact ⟨rfl, hc.advance.skipSemicolon⟩
  · exact (parseExpr_agrees hc.advance).andThen fun value d d' hd hd' hlevel => ⟨rfl, hlevel.skipSemicolon⟩

theorem parseStatement_of_return (hk : c.kind = .returnWord) : parseStatement c = parseReturn c hk := by
  rw [parseStatement]
  split <;> first | rfl | next h => exact absurd (hk.symm.trans h) (by decide) | next h _ => exact absurd hk h

theorem remaining_lt_of_advance {d e : Cursor} (hd : d.remaining < c.advance.remaining)
    (he : e.remaining < d.remaining) : e.remaining < c.remaining :=
  Nat.lt_of_lt_of_le (Nat.lt_trans he hd) c.remaining_advance_le

theorem parseStatement_of_ne_return (hk : c.kind ≠ .returnWord) : parseStatement c =
    match c.kind with
    | .printWord => (parseExprStmt .print c.advance).map id c.remaining_advance_le
    | .ifWord =>
      (parseExpr c.advance).andThen fun condition d hd =>
        (parseStatement d).andThen fun thenBranch e he =>
          if e.kind = .elseWord then
            (parseStatement e.advance).map (.ifElse condition thenBranch ·)
              (Nat.le_trans e.remaining_advance_le (Nat.le_of_lt (remaining_lt_of_advance hd he)))
          else .ok (.ifThen condition thenBranch) e (remaining_lt_of_advance hd he)
    | .forWord => .error (c.fault (.unsupportedLoop .forLoop))
    | .whileWord => .error (c.fault (.unsupportedLoop .whileLoop))
    | .leftBrace => (parseBlock c.advance).map .block c.remaining_advance_le
    | _ => parseExprStmt .expr c := by
  rw [parseStatement]
  split
  next h => rw [h]
  next h => rw [h]
  next h => rw [h]
  next h => rw [h]
  next h => exact absurd h hk
  next h => simp only [h]
  next h₁ h₂ h₃ h₄ h₅ h₆ =>
    split
    · contradiction
    · contradiction
    · contradiction
    · contradiction
    · contradiction
    · rfl

mutual

theorem parseDeclaration_agrees {c c' : Cursor} (hc : Level ts c c') :
    (parseDeclaration c).Agrees ts (parseDeclaration c') := by
  rw [parseDeclaration, parseDeclaration, hc.kind]
  split
  · exact parseDefine_agrees hc
  next hk =>
    have hlt : c.advance.remaining < c.remaining := remaining_advance_lt (by rw [hk]; decide)
    exact (parseFunction_agrees hc.advance).map rfl
  next => exact parseStatement_agrees hc
termination_by (c.remaining, 3)

theorem parseStatement_agrees {c c' : Cursor} (hc : Level ts c c') :
    (parseStatement c).Agrees ts (parseStatement c') := by
  by_cases hreturn : c.kind = .returnWord
  · rw [parseStatement_of_return hreturn, parseStatement_of_return (hc.kind.trans hreturn)]
    exact parseReturn_agrees hc hreturn (hc.kind.trans hreturn)
  · rw [parseStatement_of_ne_return hreturn, parseStatement_of_ne_return (c := c') (hc.kind ▸ hreturn), hc.kind]
    have hle := c.remaining_advance_le
    split
    · exact (parseExprStmt_agrees rfl hc.advance).map rfl
    · refine (parseExpr_agrees hc.advance).andThen fun condition d d' hd hd' hlevel => ?_
      refine (parseStatement_agrees hlevel).andThen fun thenBranch e e' he he' helevel => ?_
      rw [helevel.kind]
      split
      · have := e.remaining_advance_le
        exact (parseStatement_agrees helevel.advance).map rfl
      · exact ⟨rfl, helevel⟩
    · exact hc.fault _
    · exact hc.fault _
    next hk =>
      have hlt : c.advance.remaining < c.remaining := remaining_advance_lt (by rw [hk]; decide)
      exact (parseBlock_agrees hc.advance).map rfl
    · exact parseExprStmt_agrees rfl hc
termination_by (c.remaining, 2)

theorem parseBlock_agrees {c c' : Cursor} (hc : Level ts c c') : (parseBlock c).Agrees ts (parseBlock c') := by
  rw [parseBlock, parseBlock]
  split
  next hk =>
    rw [dif_pos (hc.kind.trans hk)]
    exact ⟨rfl, hc.advance⟩
  next hk =>
    rw [dif_neg (hc.kind ▸ hk), hc.kind]
    split
    · exact hc.fault _
    · exact (parseDeclaration_agrees hc).andThen fun s d d' hd hd' hlevel => (parseBlock_agrees hlevel).map rfl
termination_by (c.remaining, 4)

theorem parseFunction_agrees {c c' : Cursor} (hc : Level ts c c') :
    (parseFunction c).Agrees ts (parseFunction c') := by
  rw [parseFunction, parseFunction]
  refine (expectName_agrees _ hc).andThen fun name d d' hd hd' hlevel => ?_
  refine (expect_agrees _ hlevel).andThen fun _ e e' he he' helevel => ?_
  refine (parseParameters_agrees helevel).andThen fun parameters f f' hf hf' hflevel => ?_
  have := f.remaining_advance_le
  dsimp only
  rw [hflevel.kind]
  split
  next hk => exact (parseExprStmt_agrees (by rw [hflevel.current hk]) hflevel.advance).map rfl
  next => exact (parseBlock_agrees hflevel.advance).map rfl
  next => exact hflevel.fault _
termination_by (c.remaining, 1)

end

/-! ## Templates -/

theorem map_kind_beforeEnd (us : List Token) :
    (beforeEnd us).map Token.kind = (us.map Token.kind).takeWhile (· ≠ .endOfInput) := by
  rw [beforeEnd, List.takeWhile_map]
  rfl

theorem Cursor.Level.isMapperHeader (hc : Level ts c c') :
    isMapperHeader (c'.ahead.map Token.kind) = isMapperHeader (c.ahead.map Token.kind) := by
  have hp : ∀ k : TokenKind, k.isOfHeader = true → decide (k ≠ .endOfInput) = true := by
    intro k hk
    rw [decide_eq_true_eq]
    rintro rfl
    cases hk
  rw [← isMapperHeader_takeWhile hp, ← map_kind_beforeEnd, hc.ahead, map_kind_beforeEnd, isMapperHeader_takeWhile hp]

theorem parseTopLevel_agrees (hc : Level ts c c') : (parseTopLevel c).Agrees ts (parseTopLevel c') := by
  rw [parseTopLevel, parseTopLevel, hc.kind]
  split
  · rw [hc.isMapperHeader]
    split
    · exact (parseFunction_agrees hc).map rfl
    · exact parseDeclaration_agrees hc
  · exact parseImport_agrees hc
  · exact parseDeclaration_agrees hc

theorem parseProgram_eq_of_level {c c' : Cursor} (hc : Level ts c c') : parseProgram c' = parseProgram c := by
  rw [parseProgram, parseProgram, hc.kind]
  split
  · rfl
  have htop := parseTopLevel_agrees hc
  cases hp : parseTopLevel c with
  | ok s d hd =>
    cases hp' : parseTopLevel c' with
    | ok s' d' hd' =>
      obtain ⟨rfl, hlevel⟩ : s' = s ∧ Level ts d d' := by rwa [hp, hp'] at htop
      exact congrArg (Except.map (s' :: ·)) (parseProgram_eq_of_level hlevel)
    | error e' =>
      rw [hp, hp'] at htop
      exact htop.elim
  | error e =>
    cases hp' : parseTopLevel c' with
    | ok s' d' hd' =>
      rw [hp, hp'] at htop
      exact htop.elim
    | error e' =>
      obtain rfl : e' = e := by rwa [hp, hp'] at htop
      rfl
termination_by c.remaining

end Readers

/-! ## The loop over the statements -/

/-- The statements up to the end of input and the cursor behind them, if so many turns of the loop come there. -/
def readStatements (turns : Nat) (c : Cursor) : Option (Except ParseError (Program × Cursor)) :=
  if c.kind = .endOfInput then some (.ok ([], c))
  else
    match turns with
    | 0 => none
    | turns + 1 =>
      match parseTopLevel c with
      | .ok s d _ => (readStatements turns d).map fun r => r.map fun (p, e) => (s :: p, e)
      | .error e => some (.error e)

theorem readStatements_of_end (turns : Nat) {c : Cursor} (hk : c.kind = .endOfInput) :
    readStatements turns c = some (.ok ([], c)) := by
  rw [readStatements.eq_def, if_pos hk]

theorem parseProgram_of_end {c : Cursor} (hk : c.kind = .endOfInput) : parseProgram c = .ok [] := by
  rw [parseProgram, if_pos hk]

section Loop

variable {ts : List Token} {c d : Cursor}

/-- A turn passes a token before the end of input. -/
theorem length_beforeEnd_lt (hc : Level ts c c) (hd : Level ts d d) (hlt : d.remaining < c.remaining) :
    (beforeEnd d.ahead).length < (beforeEnd c.ahead).length := by
  have htext := congrArg List.length (hc.text.trans hd.text.symm)
  have hbefore := congrArg List.length (hc.beforeEnd_text.symm.trans hd.beforeEnd_text)
  simp only [List.length_append, List.length_reverse] at htext hbefore
  unfold Cursor.remaining at hlt
  omega

/-- A turn for each token is enough. It is what the parser reads, and behind the statements is the end of input. -/
theorem readStatements_of_length_le {turns : Nat} (hc : Level ts c c) (hturns : (beforeEnd c.ahead).length ≤ turns) :
    ∃ r, readStatements turns c = some r ∧ parseProgram c = r.map Prod.fst ∧
      ∀ p d, r = .ok (p, d) → d.kind = .endOfInput ∧ Level ts d d := by
  induction turns generalizing c with
  | zero =>
    have hk : c.kind = .endOfInput := by
      rw [Cursor.kind_eq, List.eq_nil_of_length_eq_zero (Nat.le_zero.1 hturns)]
      rfl
    refine ⟨_, readStatements_of_end 0 hk, parseProgram_of_end hk, ?_⟩
    rintro p d ⟨⟩
    exact ⟨hk, hc⟩
  | succ turns ih =>
    by_cases hk : c.kind = .endOfInput
    · refine ⟨_, readStatements_of_end _ hk, parseProgram_of_end hk, ?_⟩
      rintro p d ⟨⟩
      exact ⟨hk, hc⟩
    rw [readStatements, parseProgram, if_neg hk, if_neg hk]
    have htop := parseTopLevel_agrees hc
    cases hp : parseTopLevel c with
    | error e => exact ⟨.error e, rfl, rfl, nofun⟩
    | ok s d hd =>
      have hlevel : Level ts d d := by
        rw [hp] at htop
        exact htop.2
      have hlt := length_beforeEnd_lt hc hlevel hd
      obtain ⟨r, hr, hprogram, hend⟩ := ih hlevel (by omega)
      refine ⟨r.map fun (p, e) => (s :: p, e), congrArg (Option.map _) hr, ?_, ?_⟩
      · refine (congrArg (Except.map (s :: ·)) hprogram).trans ?_
        cases r <;> rfl
      · intro p e he
        cases r with
        | error _ => exact absurd he nofun
        | ok pe =>
          obtain ⟨-, rfl⟩ := Prod.mk.inj (Except.ok.inj he)
          exact hend pe.1 pe.2 rfl

end Loop

theorem beforeEnd_eq_nil {ts : List Token} (hk : (ofList ts).kind = .endOfInput) : beforeEnd ts = [] := by
  cases ts with
  | nil => rfl
  | cons t ts => exact beforeEnd_cons_end ts hk

/-- Whatever the tokens, they are read as those before the first end of input with a plain end of input behind them:
to the same template, or to the same error at the same place. The loop over the statements comes to its end within a
turn for each of these tokens, and if it has read a template, it has passed just these and stands before the end of
input. -/
theorem parse_reads_beforeEnd (ts : List Token) :
    parse ts = parse (beforeEnd ts ++ [.endOfInput]) ∧
    ∃ r, readStatements (beforeEnd ts).length (ofList ts) = some r ∧ parse ts = r.map Prod.fst ∧
      ∀ p d, r = .ok (p, d) → d.kind = .endOfInput ∧ d.passed.reverse = beforeEnd ts ∧
        d.passed.reverse ++ d.ahead = ts := by
  by_cases hk : (ofList ts).kind = .endOfInput
  · have hnone := beforeEnd_eq_nil hk
    have hnil : parse ts = .ok [] := parseProgram_of_end hk
    have hsentinel : parse [.endOfInput] = .ok [] := parseProgram_of_end rfl
    rw [hnone]
    refine ⟨hnil.trans hsentinel.symm, .ok ([], ofList ts), readStatements_of_end _ hk, hnil, ?_⟩
    rintro p d ⟨⟩
    exact ⟨hk, rfl, rfl⟩
  have level : ∀ us, beforeEnd us = beforeEnd ts → Level ts (ofList ts) (ofList us) :=
    fun us hus => ⟨rfl, hus, rfl, List.forall_mem_nil _, fun hk' => absurd hk' hk⟩
  have hsentinel : beforeEnd (beforeEnd ts ++ [.endOfInput]) = beforeEnd ts := by
    rw [beforeEnd_append fun t ht => kind_ne_of_mem_beforeEnd ht, beforeEnd_cons_end [] rfl, List.append_nil]
  refine ⟨(parseProgram_eq_of_level (level _ hsentinel)).symm, ?_⟩
  obtain ⟨r, hr, hprogram, hend⟩ := readStatements_of_length_le (level ts rfl) (Nat.le_refl _)
  refine ⟨r, hr, hprogram, fun p d hpd => ?_⟩
  obtain ⟨hdk, hlevel⟩ := hend p d hpd
  have hnone : beforeEnd d.ahead = [] := beforeEnd_eq_nil hdk
  have hbefore := hlevel.beforeEnd_text
  rw [hnone, List.append_nil] at hbefore
  exact ⟨hdk, hbefore.symm, hlevel.text⟩

/-- An end of input behind the word for printing, with a place of its own and a brace behind it. -/
theorem end_in_print_reads_beforeEnd :
    parse [⟨.printWord, .empty, ⟨1, 1⟩⟩, ⟨.endOfInput, .empty, ⟨3, 4⟩⟩, ⟨.rightBrace, .empty, ⟨3, 5⟩⟩] =
      parse [⟨.printWord, .empty, ⟨1, 1⟩⟩, .endOfInput] :=
  (parse_reads_beforeEnd _).1

end QueryTemplate
