import QueryTemplate.Proofs.Token.Places
import QueryTemplate.Proofs.Tree.Joined

/-!
# Places of trees

All positions in a tree are those of tokens that it is read from, and so is the position of an error of the parser
(`compile_places`, `compile_error_places`). A reader starts and goes on with places that are those of tokens
(`Cursor.Placed`): at the end of the input, which has none, an error is placed at the token before.
-/

namespace QueryTemplate

/-! ## Positions in trees -/

namespace Expr

variable (P : Position → Prop)

mutual

/-- Whether all positions in an expression have a property. -/
def Placed : Expr → Prop
  | literal _ p => P p
  | binary _ left right p | logical _ left right p => left.Placed ∧ right.Placed ∧ P p
  | unary _ inner p | grouping inner p => inner.Placed ∧ P p
  | name i => P i.position
  | assign target value => P target.position ∧ value.Placed
  | call callee arguments p => callee.Placed ∧ AllPlaced arguments ∧ P p
  | callMethod receiver method arguments => receiver.Placed ∧ P method.position ∧ AllPlaced arguments
  | getField receiver field => receiver.Placed ∧ P field.position
  | setField receiver field value => receiver.Placed ∧ P field.position ∧ value.Placed

/-- Whether all positions in arguments have a property. -/
def AllPlaced : List Expr → Prop
  | [] => True
  | e :: es => e.Placed ∧ AllPlaced es

end

variable {P}

theorem Placed.position {e : Expr} (h : e.Placed P) : P e.position := by
  cases e with
  | literal | name =>
    rw [Placed] at h
    exact h
  | binary | logical | call =>
    rw [Placed] at h
    exact h.2.2
  | unary | grouping | getField =>
    rw [Placed] at h
    exact h.2
  | assign =>
    rw [Placed] at h
    exact h.1
  | callMethod | setField =>
    rw [Placed] at h
    exact h.2.1

end Expr

namespace Stmt

variable (P : Position → Prop)

mutual

/-- Whether all positions in a statement have a property. -/
def Placed : Stmt → Prop
  | expr e | print e => e.Placed P
  | define name value => P name.position ∧ value.Placed P
  | ifThen condition thenBranch => condition.Placed P ∧ thenBranch.Placed
  | ifElse condition thenBranch elseBranch => condition.Placed P ∧ thenBranch.Placed ∧ elseBranch.Placed
  | block body => AllPlaced body
  | function name parameters body | mapper name parameters body =>
    P name.position ∧ (∀ i ∈ parameters, P i.position) ∧ AllPlaced body
  | ret value p => (∀ e ∈ value, e.Placed P) ∧ P p
  | importType _ localName => P localName.position

/-- Whether all positions in statements have a property. -/
def AllPlaced : List Stmt → Prop
  | [] => True
  | s :: ss => s.Placed ∧ AllPlaced ss

end

end Stmt

/-- Whether all positions in a declaration have a property. -/
structure FunctionDecl.Placed (P : Position → Prop) (d : FunctionDecl) : Prop where
  name : P d.name.position
  parameters : ∀ i ∈ d.parameters, P i.position
  body : Stmt.AllPlaced P d.body

/-! ## Cursors -/

variable {P : Position → Prop}

namespace Cursor

/-- All tokens ahead but the end of the input have the property at their positions, and so has the place of a fault. -/
structure Placed (P : Position → Prop) (c : Cursor) : Prop where
  ahead : ∀ t ∈ c.ahead, t.kind ≠ .endOfInput → P t.position
  fault : P c.faultPosition

/-- Behind a token a fault is placed at that one or at a token ahead. -/
theorem faultPosition_cons {t : Token} {passed ahead : List Token} (ht : P t.position)
    (hahead : ∀ u ∈ ahead, u.kind ≠ .endOfInput → P u.position) : P (faultPosition ⟨t :: passed, ahead⟩) := by
  unfold faultPosition
  split
  next he =>
    cases he
    exact ht
  next hne =>
    cases ahead with
    | nil => exact absurd rfl (hne t passed rfl)
    | cons u us => exact hahead u List.mem_cons_self fun hu => hne t passed hu rfl

namespace Placed

variable {c : Cursor} {k : TokenKind}

theorem current (h : c.Placed P) (hk : c.kind = k) (hne : k ≠ .endOfInput := by decide) : P c.current.position := by
  obtain ⟨passed, ahead⟩ := c
  subst hk
  cases ahead with
  | nil => exact absurd rfl hne
  | cons t ts => exact h.ahead t List.mem_cons_self hne

theorem ident (h : c.Placed P) (hk : c.kind = .identifier) : P c.ident.position := h.current hk

theorem advance (h : c.Placed P) : c.advance.Placed P := by
  unfold Cursor.advance
  split
  · exact h
  next t ts ht =>
    split
    · exact h
    next hne =>
      have hall := h.ahead
      rw [ht] at hall
      obtain ⟨hpassed, hahead⟩ := List.forall_mem_cons.1 hall
      exact ⟨hahead, faultPosition_cons (hpassed hne) hahead⟩

theorem skipSemicolon (h : c.Placed P) : c.skipSemicolon.Placed P := by
  unfold Cursor.skipSemicolon
  split
  · exact h.advance
  · exact h

end Placed

end Cursor

namespace Parsed

variable {α β : Type} {m n : Nat}

/-- Reading yields a value with a property, and goes on with places that have one, or fails at such a place. -/
def Places (P : Position → Prop) (Q : α → Prop) : Parsed α n → Prop
  | ok value next _ => Q value ∧ next.Placed P
  | error e => P e.position

variable {Q : α → Prop} {R : β → Prop}

theorem Places.andThen {p : Parsed α m} (h : p.Places P Q)
    {f : (value : α) → (next : Cursor) → next.remaining < m → Parsed β n}
    (hf : ∀ a d hd, Q a → d.Placed P → (f a d hd).Places P R) : (p.andThen f).Places P R := by
  cases p with
  | ok a d hd => exact hf a d hd h.1 h.2
  | error e => exact h

theorem Places.map {p : Parsed α m} (h : p.Places P Q) {f : α → β} {hmn : m ≤ n} (hf : ∀ a, Q a → R (f a)) :
    (p.map f hmn).Places P R :=
  h.andThen fun a _ _ ha hd => ⟨hf a ha, hd⟩

end Parsed

open Cursor Parsed

section Readers

variable {c : Cursor}

theorem expect_places (what : Landmark) (hc : c.Placed P) : (c.expect what).Places P fun _ => True := by
  unfold Cursor.expect
  split
  · exact ⟨trivial, hc.advance⟩
  · exact hc.fault

theorem expectName_places (role : NameRole) (hc : c.Placed P) :
    (c.expectName role).Places P fun i => P i.position := by
  unfold Cursor.expectName
  split
  next hk => exact ⟨hc.ident hk, hc.advance⟩
  next => exact hc.fault

/-! ## Expressions -/

theorem Operator.placed_node {op : Operator} {left right : Expr} {p : Position} (hl : left.Placed P)
    (hr : right.Placed P) (hp : P p) : (op.node left right p).Placed P := by
  cases op with
  | binary | logical =>
    rw [node, Expr.Placed]
    exact ⟨hl, hr, hp⟩

mutual

theorem parseExpr_places {c : Cursor} (hc : c.Placed P) : (parseExpr c).Places P (Expr.Placed P) := by
  rw [parseExpr]
  refine (parseOperation_places 1 hc).andThen fun target d hd ht hdp => ?_
  split
  next hk =>
    have := d.remaining_advance_le
    refine (parseExpr_places hdp.advance).andThen fun value e he hv hep => ?_
    cases target with
    | name target =>
      refine ⟨?_, hep⟩
      rw [Expr.Placed]
      exact ⟨ht.position, hv⟩
    | _ => exact hdp.current hk
  next => exact ⟨ht, hdp⟩
termination_by (c.remaining, 5)

theorem parseOperation_places (level : Nat) {c : Cursor} (hc : c.Placed P) :
    (parseOperation level c).Places P (Expr.Placed P) := by
  rw [parseOperation]
  exact (parseOperand_places hc).andThen fun left d hd hl hdp => parseOperatorsFrom_places level hl hdp hd
termination_by (c.remaining, 3)

theorem parseOperatorsFrom_places {n : Nat} (level : Nat) {left : Expr} (hl : left.Placed P) {c : Cursor}
    (hc : c.Placed P) (hn : c.remaining < n) : (parseOperatorsFrom level left c hn).Places P (Expr.Placed P) := by
  rw [parseOperatorsFrom]
  split
  next op ho =>
    split
    · have := c.remaining_advance_le
      have hk := (Operator.ofKind?_eq_some_iff.1 ho).symm
      have hop := op.endsStmt_kind.2
      have hlt : c.advance.remaining < c.remaining := remaining_advance_lt (hk ▸ hop)
      refine (parseOperation_places (op.level + 1) hc.advance).andThen fun right d hd hr hdp => ?_
      exact parseOperatorsFrom_places level (Operator.placed_node hl hr (hc.current hk hop)) hdp _
    · exact ⟨hl, hc⟩
  next => exact ⟨hl, hc⟩
termination_by (c.remaining, 4)

theorem parseOperand_places {c : Cursor} (hc : c.Placed P) : (parseOperand c).Places P (Expr.Placed P) := by
  rw [parseOperand]
  split
  next op ho =>
    have := UnaryOp.remaining_advance_lt ho
    have hop := op.endsStmt_kind.2
    refine (parseOperand_places hc.advance).map fun e he => ?_
    rw [Expr.Placed]
    exact ⟨he, hc.current (UnaryOp.ofKind?_eq_some_iff.1 ho).symm hop⟩
  next => exact (parsePrimary_places hc).andThen fun e d hd he hdp => parseCallsFrom_places he hdp hd
termination_by (c.remaining, 2)

theorem parseCallsFrom_places {n : Nat} {e : Expr} (he : e.Placed P) {c : Cursor} (hc : c.Placed P)
    (hn : c.remaining < n) : (parseCallsFrom e c hn).Places P (Expr.Placed P) := by
  rw [parseCallsFrom]
  split
  next hk =>
    have := remaining_advance_lt_of_leftParen hk
    refine (parseArguments_places hc.advance).andThen fun arguments d hd ha hdp => ?_
    refine parseCallsFrom_places ?_ hdp _
    rw [Expr.Placed]
    exact ⟨he, ha, hc.current hk⟩
  next hk =>
    have hlt : c.advance.remaining < c.remaining := remaining_advance_lt (by rw [hk]; decide)
    refine (expectName_places _ hc.advance).andThen fun member d hd hm hdp => ?_
    have := d.remaining_advance_le
    split
    · refine (parseArguments_places hdp.advance).andThen fun arguments d' hd' ha hdp' => ?_
      refine parseCallsFrom_places ?_ hdp' _
      rw [Expr.Placed]
      exact ⟨he, hm, ha⟩
    · refine (parseExpr_places hdp.advance).andThen fun value d' hd' hv hdp' => ?_
      refine parseCallsFrom_places ?_ hdp' _
      rw [Expr.Placed]
      exact ⟨he, hm, hv⟩
    · refine parseCallsFrom_places ?_ hdp _
      rw [Expr.Placed]
      exact ⟨he, hm⟩
  next => exact ⟨he, hc⟩
termination_by (c.remaining, 8)

theorem parseArguments_places {c : Cursor} (hc : c.Placed P) : (parseArguments c).Places P (Expr.AllPlaced P) := by
  rw [parseArguments]
  split
  · exact ⟨trivial, hc.advance⟩
  · exact parseArgumentList_places hc
termination_by (c.remaining, 7)

theorem parseArgumentList_places {c : Cursor} (hc : c.Placed P) :
    (parseArgumentList c).Places P (Expr.AllPlaced P) := by
  rw [parseArgumentList]
  refine (parseExpr_places hc).andThen fun e d hd he hdp => ?_
  split
  · have := d.remaining_advance_le
    exact (parseArgumentList_places hdp.advance).map fun es hes => ⟨he, hes⟩
  · exact (expect_places _ hdp).map fun _ _ => ⟨he, trivial⟩
termination_by (c.remaining, 6)

theorem parsePrimary_places {c : Cursor} (hc : c.Placed P) : (parsePrimary c).Places P (Expr.Placed P) := by
  rw [parsePrimary]
  split
  next l hl =>
    refine ⟨?_, hc.advance⟩
    rw [Expr.Placed]
    exact hc.current rfl (Token.kind_ne_endOfInput_of_literal? hl)
  next =>
    split
    next hk =>
      refine ⟨?_, hc.advance⟩
      rw [Expr.Placed]
      exact hc.ident hk
    next =>
      split
      next hk =>
        have := remaining_advance_lt_of_leftParen hk
        refine (parseExpr_places hc.advance).andThen fun inner d hd hi hdp => (expect_places _ hdp).map fun _ _ => ?_
        rw [Expr.Placed]
        exact ⟨hi, hc.current hk⟩
      next => exact hc.fault
termination_by (c.remaining, 1)

end

/-! ## Statements -/

theorem parseDefine_places (hc : c.Placed P) : (parseDefine c).Places P (Stmt.Placed P) := by
  rw [parseDefine]
  refine (expectName_places _ hc.advance).andThen fun name d hd hname hdp => ?_
  split
  · refine (parseExpr_places hdp.advance).andThen fun value e he hv hep => ⟨?_, hep.skipSemicolon⟩
    rw [Stmt.Placed]
    exact ⟨hname, hv⟩
  · refine ⟨?_, hdp.skipSemicolon⟩
    rw [Stmt.Placed, Expr.Placed]
    exact ⟨hname, hname⟩

theorem parseParameterList_places {c : Cursor} (hc : c.Placed P) :
    (parseParameterList c).Places P fun is => ∀ i ∈ is, P i.position := by
  rw [parseParameterList]
  refine (expectName_places _ hc).andThen fun name d hd hname hdp => ?_
  split
  · have := remaining_advance_lt_trans hd
    exact (parseParameterList_places hdp.advance).map fun is his => List.forall_mem_cons.2 ⟨hname, his⟩
  · exact (expect_places _ hdp).map fun _ _ => List.forall_mem_singleton.2 hname
termination_by c.remaining

theorem parseParameters_places (hc : c.Placed P) :
    (parseParameters c).Places P fun is => ∀ i ∈ is, P i.position := by
  rw [parseParameters]
  split
  · exact ⟨List.forall_mem_nil _, hc.advance⟩
  · exact parseParameterList_places hc

theorem parsePath_places (role : NameRole) {c : Cursor} (hc : c.Placed P) :
    (parsePath role c).Places P fun x => P x.2.position := by
  rw [parsePath]
  refine (expectName_places role hc).andThen fun name d hd hname hdp => ?_
  split
  · have := d.remaining_advance_le
    exact (parsePath_places _ hdp.advance).map fun x hx => hx
  · exact ⟨hname, hdp⟩
termination_by c.remaining

theorem parseImport_places (hc : c.Placed P) : (parseImport c).Places P (Stmt.Placed P) := by
  rw [parseImport]
  refine (parsePath_places _ hc.advance).andThen fun r d hd hlast hdp => ?_
  obtain ⟨path, last⟩ := r
  dsimp only
  split
  · refine (expectName_places _ hdp.advance).andThen fun localName e he hname hep => ⟨?_, hep.skipSemicolon⟩
    rw [Stmt.Placed]
    exact hname
  · refine ⟨?_, hdp.skipSemicolon⟩
    rw [Stmt.Placed]
    exact hlast

theorem parseReturn_places (hc : c.Placed P) (hk : c.kind = .returnWord) :
    (parseReturn c hk).Places P (Stmt.Placed P) := by
  have hp : P c.current.position := hc.current hk
  have hnone : (Stmt.ret none c.current.position).Placed P := by
    rw [Stmt.Placed]
    exact ⟨nofun, hp⟩
  rw [parseReturn]
  dsimp only
  split
  · exact ⟨hnone, hc.advance.skipSemicolon⟩
  · exact ⟨hnone, hc.advance.skipSemicolon⟩
  · exact ⟨hnone, hc.advance.skipSemicolon⟩
  · refine (parseExpr_places hc.advance).andThen fun value d hd hv hdp => ⟨?_, hdp.skipSemicolon⟩
    rw [Stmt.Placed]
    exact ⟨fun e he => Option.some.inj he ▸ hv, hp⟩

theorem parseExprStmt_places {make : Expr → Stmt} (hmake : ∀ e, e.Placed P → (make e).Placed P) (hc : c.Placed P) :
    (parseExprStmt make c).Places P (Stmt.Placed P) := by
  rw [parseExprStmt]
  exact (parseExpr_places hc).andThen fun e d hd he hdp => ⟨hmake e he, hdp.skipSemicolon⟩

mutual

theorem parseDeclaration_places {c : Cursor} (hc : c.Placed P) : (parseDeclaration c).Places P (Stmt.Placed P) := by
  rw [parseDeclaration]
  split
  · exact parseDefine_places hc
  next hk =>
    have hlt : c.advance.remaining < c.remaining := remaining_advance_lt (by rw [hk]; decide)
    refine (parseFunction_places hc.advance).map fun f hf => ?_
    rw [Stmt.Placed]
    exact ⟨hf.name, hf.parameters, hf.body⟩
  next => exact parseStatement_places hc
termination_by (c.remaining, 3)

theorem parseStatement_places {c : Cursor} (hc : c.Placed P) : (parseStatement c).Places P (Stmt.Placed P) := by
  have hle := c.remaining_advance_le
  rw [parseStatement]
  split
  next => exact (parseExprStmt_places (fun e he => by rwa [Stmt.Placed]) hc.advance).map fun s hs => hs
  next hk =>
    refine (parseExpr_places hc.advance).andThen fun condition d hd hcondition hdp => ?_
    refine (parseStatement_places hdp).andThen fun thenBranch e he hthen hep => ?_
    split
    · have := e.remaining_advance_le
      refine (parseStatement_places hep.advance).map fun elseBranch helse => ?_
      rw [Stmt.Placed]
      exact ⟨hcondition, hthen, helse⟩
    · refine ⟨?_, hep⟩
      rw [Stmt.Placed]
      exact ⟨hcondition, hthen⟩
  next => exact hc.fault
  next => exact hc.fault
  next hk => exact parseReturn_places hc hk
  next hk =>
    have hlt : c.advance.remaining < c.remaining := remaining_advance_lt (by rw [hk]; decide)
    exact (parseBlock_places hc.advance).map fun body hbody => by rwa [Stmt.Placed]
  next => exact parseExprStmt_places (fun e he => by rwa [Stmt.Placed]) hc
termination_by (c.remaining, 2)

theorem parseBlock_places {c : Cursor} (hc : c.Placed P) : (parseBlock c).Places P (Stmt.AllPlaced P) := by
  rw [parseBlock]
  split
  · exact ⟨trivial, hc.advance⟩
  split
  · exact hc.fault
  · exact (parseDeclaration_places hc).andThen fun s d hd hs hdp =>
      (parseBlock_places hdp).map fun ss hss => ⟨hs, hss⟩
termination_by (c.remaining, 4)

theorem parseFunction_places {c : Cursor} (hc : c.Placed P) :
    (parseFunction c).Places P (FunctionDecl.Placed P) := by
  rw [parseFunction]
  refine (expectName_places _ hc).andThen fun name d hd hname hdp => ?_
  refine (expect_places _ hdp).andThen fun _ e he _ hep => ?_
  refine (parseParameters_places hep).andThen fun parameters f hf hparameters hfp => ?_
  have := f.remaining_advance_le
  dsimp only
  split
  next hk =>
    refine (parseExprStmt_places (fun value hv => ?_) hfp.advance).map fun s hs => ⟨hname, hparameters, hs, trivial⟩
    rw [Stmt.Placed]
    exact ⟨fun e he => Option.some.inj he ▸ hv, hfp.current hk⟩
  next => exact (parseBlock_places hfp.advance).map fun body hbody => ⟨hname, hparameters, hbody⟩
  next => exact hfp.fault
termination_by (c.remaining, 1)

end

/-! ## Templates -/

theorem parseTopLevel_places (hc : c.Placed P) : (parseTopLevel c).Places P (Stmt.Placed P) := by
  rw [parseTopLevel]
  split
  · split
    · refine (parseFunction_places hc).map fun f hf => ?_
      rw [Stmt.Placed]
      exact ⟨hf.name, hf.parameters, hf.body⟩
    · exact parseDeclaration_places hc
  · exact parseImport_places hc
  · exact parseDeclaration_places hc

/-- The statements of a template are placed, or there is an error at a place. At a cursor with nothing ahead the
template is empty. -/
theorem parseProgram_places {c : Cursor} (hc : c.kind ≠ .endOfInput → c.Placed P) :
    (∀ e, parseProgram c = .error e → P e.position) ∧ ∀ p, parseProgram c = .ok p → Stmt.AllPlaced P p := by
  rw [parseProgram]
  split
  · exact ⟨by rintro _ ⟨⟩, fun p hp => Except.ok.inj hp ▸ trivial⟩
  next hne =>
    have htop := parseTopLevel_places (hc hne)
    split
    next s d hd hs =>
      rw [hs] at htop
      obtain ⟨herror, hok⟩ := parseProgram_places fun _ => htop.2
      cases hrest : parseProgram d with
      | error e => exact ⟨fun e' he => Except.error.inj he ▸ herror e hrest, by rintro _ ⟨⟩⟩
      | ok p => exact ⟨by rintro _ ⟨⟩, fun p' hp => Except.ok.inj hp ▸ ⟨htop.1, hok p hrest⟩⟩
    next e he =>
      rw [he] at htop
      exact ⟨fun e' he' => Except.error.inj he' ▸ htop, by rintro _ ⟨⟩⟩
termination_by c.remaining

end Readers

/-- Whether a position is that of a token of a text. -/
def TokenPosition (source : String) (p : Position) : Prop :=
  ∃ offset, StartsToken source offset ∧ p = (LineIndex.ofString source).position offset

theorem placed_ofList {source : String} {tokens : List Token} (h : tokenize source = .ok tokens)
    (hne : (ofList tokens).kind ≠ .endOfInput) : (ofList tokens).Placed (TokenPosition source) := by
  refine ⟨tokenize_places h, ?_⟩
  cases tokens with
  | nil => exact absurd rfl hne
  | cons t ts =>
    have hfault : (ofList (t :: ts)).faultPosition = t.position := by
      unfold faultPosition
      split
      next he => cases he
      next => rfl
    rw [hfault]
    exact tokenize_places h t List.mem_cons_self hne

/-- All positions in the tree of a text are those of its tokens. -/
theorem compile_places {source : String} {p : Program} (h : compile source = .ok p) :
    Stmt.AllPlaced (TokenPosition source) p := by
  obtain ⟨tokens, ht, hp⟩ := compile_eq_ok.1 h
  exact (parseProgram_places (placed_ofList ht)).2 p hp

/-- Whether an error of the compiler points to a byte of a text. -/
def CompileError.PointsTo (source : String) (offset : Nat) : CompileError → Prop
  | lexing e => e.PointsTo source offset
  | parsing _ => StartsToken source offset

theorem CompileError.PointsTo.lt {source : String} {offset : Nat} {e : CompileError} (h : e.PointsTo source offset) :
    offset < source.utf8ByteSize := by
  cases e with
  | lexing e => exact LexError.PointsTo.lt h
  | parsing e => exact StartsToken.lt h

/-- An error of the compiler has the position of the byte that it points to. -/
theorem compile_error_points {source : String} {e : CompileError} (h : compile source = .error e) :
    ∃ offset, e.PointsTo source offset ∧ e.diagnostic.position = (LineIndex.ofString source).position offset := by
  unfold compile parse at h
  split at h
  next e' he =>
    cases h
    exact tokenize_error_points he
  next tokens ht =>
    split at h
    next e' he =>
      cases h
      exact (parseProgram_places (placed_ofList ht)).1 e' he
    next => cases h

end QueryTemplate
