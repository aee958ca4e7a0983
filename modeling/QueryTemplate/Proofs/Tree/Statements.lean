import QueryTemplate.Proofs.Tree.Precedence

/-!
# What the readers of statements yield

One equivalence for each reader of statements, as for those of expressions. From them follows the shape of the trees of
templates: the branches of a conditional declare nothing, an `else` belongs to the nearest `if`, and mappers and imports
stand at top level (`parse_shaped`).
-/

namespace QueryTemplate

open Parsed Cursor

/-! ## Readers -/

section Readers

variable {c d : Cursor}

theorem startsExpr_of_yields {e : Expr} (h : (parseExpr c).Yields e d) : c.kind.startsExpr = true := by
  have literal : ∀ l, c.current.literal? = some l → c.kind.startsExpr = true := fun l hl => by
    unfold Token.literal? at hl
    unfold Cursor.kind
    split at hl <;> simp_all [TokenKind.startsExpr]
  obtain ⟨target, x, ht, -⟩ := parseExpr_yields.1 h
  obtain ⟨left, y, -, hl, -⟩ := parseOperation_yields.1 ht
  rcases parseOperand_yields.1 hl with ⟨op, operand, ho, -, -⟩ | ⟨-, base, z, -, hb, -⟩
  · rw [← UnaryOp.ofKind?_eq_some_iff.1 ho]
    cases op <;> rfl
  · rcases parsePrimary_yields.1 hb with ⟨l, hl, -, -⟩ | ⟨hk, -, -⟩ | ⟨hk, -⟩
    · exact literal l hl
    · rw [hk]
      rfl
    · rw [hk]
      rfl

theorem parseExprStmt_yields {make : Expr → Stmt} {s : Stmt} :
    (parseExprStmt make c).Yields s d ↔ ∃ e x, (parseExpr c).Yields e x ∧ s = make e ∧ d = x.skipSemicolon := by
  rw [parseExprStmt, yields_andThen]
  constructor
  · rintro ⟨e, x, _, he, h⟩
    exact ⟨e, x, he, yields_ok.1 h⟩
  · rintro ⟨e, x, he, h⟩
    exact ⟨e, x, he.nearer, he, yields_ok.2 h⟩

theorem parseDefine_yields {s : Stmt} :
    (parseDefine c).Yields s d ↔ c.advance.kind = .identifier ∧
      (c.advance.advance.kind = .equal ∧ (∃ value x, (parseExpr c.advance.advance.advance).Yields value x ∧
          s = .define c.advance.ident value ∧ d = x.skipSemicolon) ∨
        c.advance.advance.kind ≠ .equal ∧
          s = .define c.advance.ident (.literal .null c.advance.ident.position) ∧
          d = c.advance.advance.skipSemicolon) := by
  rw [parseDefine, yields_andThen]
  constructor
  · rintro ⟨name, x, _, hn, h⟩
    obtain ⟨hk, rfl, rfl⟩ := expectName_yields.1 hn
    refine ⟨hk, ?_⟩
    split at h
    next he =>
      obtain ⟨value, y, _, hv, h⟩ := yields_andThen.1 h
      exact .inl ⟨he, value, y, hv, yields_ok.1 h⟩
    next he => exact .inr ⟨he, yields_ok.1 h⟩
  · rintro ⟨hk, h⟩
    have hn : (c.advance.expectName .variableName).Yields c.advance.ident c.advance.advance :=
      expectName_yields.2 ⟨hk, rfl, rfl⟩
    refine ⟨_, _, hn.nearer, hn, ?_⟩
    rcases h with ⟨he, value, y, hv, hs⟩ | ⟨he, hs⟩
    · simp only [he, ↓reduceIte]
      exact yields_andThen.2 ⟨value, y, hv.nearer, hv, yields_ok.2 hs⟩
    · simp only [he, ↓reduceIte]
      exact yields_ok.2 hs

theorem parseParameterList_yields {ps : List Ident} :
    (parseParameterList c).Yields ps d ↔ c.kind = .identifier ∧
      (c.advance.kind = .comma ∧ (∃ rest, (parseParameterList c.advance.advance).Yields rest d ∧ ps = c.ident :: rest) ∨
        c.advance.kind = .rightParen ∧ ps = [c.ident] ∧ d = c.advance.advance) := by
  rw [parseParameterList, yields_andThen]
  constructor
  · rintro ⟨name, x, _, hn, h⟩
    obtain ⟨hk, rfl, rfl⟩ := expectName_yields.1 hn
    refine ⟨hk, ?_⟩
    split at h
    next he => exact .inl ⟨he, yields_map.1 h⟩
    next he =>
      obtain ⟨_, hu, rfl⟩ := yields_map.1 h
      obtain ⟨hp, rfl⟩ := expect_yields.1 hu
      exact .inr ⟨hp, rfl, rfl⟩
  · rintro ⟨hk, h⟩
    have hn : (c.expectName .parameterName).Yields c.ident c.advance := expectName_yields.2 ⟨hk, rfl, rfl⟩
    refine ⟨_, _, hn.nearer, hn, ?_⟩
    rcases h with ⟨he, rest, hr, rfl⟩ | ⟨he, rfl, rfl⟩
    · rw [if_pos he]
      exact yields_map.2 ⟨rest, hr, rfl⟩
    · rw [if_neg (by rw [he]; decide)]
      exact yields_map.2 ⟨(), expect_yields.2 ⟨he, rfl⟩, rfl⟩

theorem parseParameters_yields {ps : List Ident} :
    (parseParameters c).Yields ps d ↔
      c.kind = .rightParen ∧ ps = [] ∧ d = c.advance ∨ c.kind ≠ .rightParen ∧ (parseParameterList c).Yields ps d := by
  rw [parseParameters]
  split
  next hk => simp [hk]
  next hk => simp [hk]

theorem parsePath_yields {role : NameRole} {path : String} {last : Ident} :
    (parsePath role c).Yields (path, last) d ↔ c.kind = .identifier ∧
      (c.advance.kind = .dot ∧ (∃ rest, (parsePath .typePathSegment c.advance.advance).Yields (rest, last) d ∧
          path = c.ident.name ++ "." ++ rest) ∨
        c.advance.kind ≠ .dot ∧ path = c.ident.name ∧ last = c.ident ∧ d = c.advance) := by
  rw [parsePath, yields_andThen]
  constructor
  · rintro ⟨name, x, _, hn, h⟩
    obtain ⟨hk, rfl, rfl⟩ := expectName_yields.1 hn
    refine ⟨hk, ?_⟩
    split at h
    next he =>
      obtain ⟨⟨rest, last'⟩, hr, hp⟩ := yields_map.1 h
      obtain ⟨rfl, rfl⟩ := Prod.mk.inj hp
      exact .inl ⟨he, rest, hr, rfl⟩
    next he =>
      obtain ⟨hp, rfl⟩ := yields_ok.1 h
      obtain ⟨rfl, rfl⟩ := Prod.mk.inj hp
      exact .inr ⟨he, rfl, rfl, rfl⟩
  · rintro ⟨hk, h⟩
    have hn : (c.expectName role).Yields c.ident c.advance := expectName_yields.2 ⟨hk, rfl, rfl⟩
    refine ⟨_, _, hn.nearer, hn, ?_⟩
    rcases h with ⟨he, rest, hr, rfl⟩ | ⟨he, rfl, rfl, rfl⟩
    · rw [if_pos he]
      exact yields_map.2 ⟨(rest, last), hr, rfl⟩
    · rw [if_neg he]
      exact yields_ok.2 ⟨rfl, rfl⟩

theorem parseImport_yields {s : Stmt} :
    (parseImport c).Yields s d ↔ ∃ path last x, (parsePath .typePath c.advance).Yields (path, last) x ∧
      ((x.kind = .identifier ∧ x.current.payload.text? = some "as") ∧ x.advance.kind = .identifier ∧
          s = .importType path x.advance.ident ∧ d = x.advance.advance.skipSemicolon ∨
        ¬(x.kind = .identifier ∧ x.current.payload.text? = some "as") ∧ s = .importType path last ∧
          d = x.skipSemicolon) := by
  rw [parseImport, yields_andThen]
  constructor
  · rintro ⟨⟨path, last⟩, x, _, hp, h⟩
    refine ⟨path, last, x, hp, ?_⟩
    dsimp only at h
    split at h
    next ha =>
      obtain ⟨name, y, _, hn, h⟩ := yields_andThen.1 h
      obtain ⟨hk, rfl, rfl⟩ := expectName_yields.1 hn
      exact .inl ⟨ha, hk, yields_ok.1 h⟩
    next ha => exact .inr ⟨ha, yields_ok.1 h⟩
  · rintro ⟨path, last, x, hp, h⟩
    refine ⟨(path, last), x, hp.nearer, hp, ?_⟩
    rcases h with ⟨ha, hk, hs⟩ | ⟨ha, hs⟩
    · simp only [ha, and_self, ↓reduceIte]
      have hn : (x.advance.expectName .importAlias).Yields x.advance.ident x.advance.advance :=
        expectName_yields.2 ⟨hk, rfl, rfl⟩
      exact yields_andThen.2 ⟨_, _, hn.nearer, hn, yields_ok.2 hs⟩
    · simp only [ha, ↓reduceIte]
      exact yields_ok.2 hs

theorem parseReturn_yields {s : Stmt} (hc : c.kind = .returnWord) :
    (parseReturn c hc).Yields s d ↔
      (c.advance.kind = .rightBrace ∨ c.advance.kind = .semicolon ∨ c.advance.kind = .endOfInput) ∧
          s = .ret none c.current.position ∧ d = c.advance.skipSemicolon ∨
        ∃ value x, (parseExpr c.advance).Yields value x ∧ s = .ret (some value) c.current.position ∧
          d = x.skipSemicolon := by
  have hnone : c.advance.kind = .rightBrace ∨ c.advance.kind = .semicolon ∨ c.advance.kind = .endOfInput →
      ∀ value x, ¬(parseExpr c.advance).Yields value x := fun hk value x hv => by
    have := startsExpr_of_yields hv
    rcases hk with hk | hk | hk <;> rw [hk] at this <;> cases this
  unfold parseReturn
  dsimp only
  split
  case h_4 h₁ h₂ h₃ =>
    rw [yields_andThen]
    constructor
    · rintro ⟨value, x, _, hv, h⟩
      exact .inr ⟨value, x, hv, yields_ok.1 h⟩
    · rintro (⟨hk, -⟩ | ⟨value, x, hv, h⟩)
      · exact (hk.elim h₁ fun hk => hk.elim h₂ h₃).elim
      · exact ⟨value, x, hv.nearer, hv, yields_ok.2 h⟩
  all_goals
    next hk =>
      rw [yields_ok]
      constructor
      · exact fun h => .inl ⟨by simp [hk], h⟩
      · rintro (⟨-, h⟩ | ⟨value, x, hv, -⟩)
        · exact h
        · exact absurd hv (hnone (by simp [hk]) value x)

theorem parseStatement_yields {s : Stmt} :
    (parseStatement c).Yields s d ↔
      c.kind = .printWord ∧ (parseExprStmt .print c.advance).Yields s d ∨
      c.kind = .ifWord ∧ (∃ condition x thenBranch y, (parseExpr c.advance).Yields condition x ∧
        (parseStatement x).Yields thenBranch y ∧
          (y.kind = .elseWord ∧ (∃ elseBranch, (parseStatement y.advance).Yields elseBranch d ∧
              s = .ifElse condition thenBranch elseBranch) ∨
            y.kind ≠ .elseWord ∧ s = .ifThen condition thenBranch ∧ d = y)) ∨
      c.kind = .returnWord ∧
        ((c.advance.kind = .rightBrace ∨ c.advance.kind = .semicolon ∨ c.advance.kind = .endOfInput) ∧
            s = .ret none c.current.position ∧ d = c.advance.skipSemicolon ∨
          ∃ value x, (parseExpr c.advance).Yields value x ∧ s = .ret (some value) c.current.position ∧
            d = x.skipSemicolon) ∨
      c.kind = .leftBrace ∧ (∃ body, (parseBlock c.advance).Yields body d ∧ s = .block body) ∨
      (parseExprStmt .expr c).Yields s d := by
  have hexpr : c.kind.startsExpr = false → ¬(parseExprStmt .expr c).Yields s d := fun hk h => by
    obtain ⟨e, x, he, -⟩ := parseExprStmt_yields.1 h
    rw [startsExpr_of_yields he] at hk
    cases hk
  rw [parseStatement]
  dsimp only
  split
  next hk => simp [hk, hexpr (by rw [hk]; rfl)]
  next hk =>
    simp only [hk, hexpr (by rw [hk]; rfl), reduceCtorEq, false_and, true_and, false_or, or_false]
    rw [yields_andThen]
    constructor
    · rintro ⟨condition, x, _, hx, h⟩
      obtain ⟨thenBranch, y, _, hy, h⟩ := yields_andThen.1 h
      refine ⟨condition, x, thenBranch, y, hx, hy, ?_⟩
      split at h
      next he => exact .inl ⟨he, yields_map.1 h⟩
      next he => exact .inr ⟨he, yields_ok.1 h⟩
    · rintro ⟨condition, x, thenBranch, y, hx, hy, h⟩
      refine ⟨condition, x, hx.nearer, hx, yields_andThen.2 ⟨thenBranch, y, hy.nearer, hy, ?_⟩⟩
      rcases h with ⟨he, h⟩ | ⟨he, h⟩
      · rw [if_pos he]
        exact yields_map.2 h
      · rw [if_neg he]
        exact yields_ok.2 h
  next hk => simp [hk, hexpr (by rw [hk]; rfl)]
  next hk => simp [hk, hexpr (by rw [hk]; rfl)]
  next hk =>
    rw [parseReturn_yields]
    simp [hk, hexpr (by rw [hk]; rfl)]
  next hk => simp [hk, hexpr (by rw [hk]; rfl)]
  next h₁ h₂ h₃ h₄ h₅ h₆ =>
    have h₁ : c.kind ≠ .printWord := h₁
    have h₂ : c.kind ≠ .ifWord := h₂
    have h₅ : c.kind ≠ .returnWord := h₅
    have h₆ : c.kind ≠ .leftBrace := h₆
    simp [h₁, h₂, h₅, h₆]

theorem parseDeclaration_yields {s : Stmt} :
    (parseDeclaration c).Yields s d ↔
      c.kind = .varWord ∧ (parseDefine c).Yields s d ∨
      c.kind = .funWord ∧ (∃ f, (parseFunction c.advance).Yields f d ∧ s = .function f.name f.parameters f.body) ∨
      c.kind ≠ .varWord ∧ c.kind ≠ .funWord ∧ (parseStatement c).Yields s d := by
  rw [parseDeclaration]
  split
  next hk => simp [hk]
  next hk => simp [hk]
  next h₁ h₂ =>
    have h₁ : c.kind ≠ .varWord := h₁
    have h₂ : c.kind ≠ .funWord := h₂
    simp [h₁, h₂]

theorem parseBlock_yields {ss : List Stmt} :
    (parseBlock c).Yields ss d ↔
      c.kind = .rightBrace ∧ ss = [] ∧ d = c.advance ∨
      c.kind ≠ .rightBrace ∧ c.kind ≠ .endOfInput ∧ ∃ s x rest, (parseDeclaration c).Yields s x ∧
        (parseBlock x).Yields rest d ∧ ss = s :: rest := by
  rw [parseBlock]
  split
  next hk => simp [hk]
  next hk =>
    split
    next he => simp [he]
    next he =>
      simp only [hk, he, false_and, false_or, ne_eq, not_false_eq_true, true_and]
      rw [yields_andThen]
      constructor
      · rintro ⟨s, x, _, hs, h⟩
        obtain ⟨rest, hr, rfl⟩ := yields_map.1 h
        exact ⟨s, x, rest, hs, hr, rfl⟩
      · rintro ⟨s, x, rest, hs, hr, rfl⟩
        exact ⟨s, x, hs.nearer, hs, yields_map.2 ⟨rest, hr, rfl⟩⟩

theorem parseFunction_yields {f : FunctionDecl} :
    (parseFunction c).Yields f d ↔ c.kind = .identifier ∧ c.advance.kind = .leftParen ∧
      ∃ parameters x, (parseParameters c.advance.advance).Yields parameters x ∧
        (x.kind = .equal ∧ (∃ value y, (parseExpr x.advance).Yields value y ∧ d = y.skipSemicolon ∧
            f = ⟨c.ident, parameters, [.ret (some value) x.current.position]⟩) ∨
          x.kind = .leftBrace ∧ ∃ body, (parseBlock x.advance).Yields body d ∧ f = ⟨c.ident, parameters, body⟩) := by
  rw [parseFunction, yields_andThen]
  constructor
  · rintro ⟨name, x, _, hn, h⟩
    obtain ⟨hk, rfl, rfl⟩ := expectName_yields.1 hn
    obtain ⟨_, y, _, hu, h⟩ := yields_andThen.1 h
    obtain ⟨hp, rfl⟩ := expect_yields.1 hu
    obtain ⟨parameters, z, _, hz, h⟩ := yields_andThen.1 h
    refine ⟨hk, hp, parameters, z, hz, ?_⟩
    dsimp only at h
    split at h
    next he =>
      obtain ⟨body, hb, rfl⟩ := yields_map.1 h
      obtain ⟨value, w, hv, rfl, hd⟩ := parseExprStmt_yields.1 hb
      exact .inl ⟨he, value, w, hv, hd, rfl⟩
    next he => exact .inr ⟨he, yields_map.1 h⟩
    next => exact absurd h yields_error
  · rintro ⟨hk, hp, parameters, x, hx, h⟩
    have hn : (c.expectName .functionName).Yields c.ident c.advance := expectName_yields.2 ⟨hk, rfl, rfl⟩
    have hu : (c.advance.expect .openParameters).Yields () c.advance.advance := expect_yields.2 ⟨hp, rfl⟩
    refine ⟨_, _, hn.nearer, hn, yields_andThen.2 ⟨_, _, hu.nearer, hu, ?_⟩⟩
    refine yields_andThen.2 ⟨parameters, x, hx.nearer, hx, ?_⟩
    rcases h with ⟨he, value, y, hv, rfl, rfl⟩ | ⟨he, body, hb, rfl⟩
    · simp only [he]
      exact yields_map.2 ⟨_, parseExprStmt_yields.2 ⟨value, y, hv, rfl, rfl⟩, rfl⟩
    · simp only [he]
      exact yields_map.2 ⟨body, hb, rfl⟩

theorem parseTopLevel_yields {s : Stmt} :
    (parseTopLevel c).Yields s d ↔
      (c.kind = .identifier ∧ isMapperHeader (c.ahead.map Token.kind) = true) ∧
        (∃ f, (parseFunction c).Yields f d ∧ s = .mapper f.name f.parameters f.body) ∨
      c.kind = .importWord ∧ (parseImport c).Yields s d ∨
      ¬(c.kind = .identifier ∧ isMapperHeader (c.ahead.map Token.kind) = true) ∧ c.kind ≠ .importWord ∧
        (parseDeclaration c).Yields s d := by
  rw [parseTopLevel]
  split
  next hk =>
    split
    next hh => simp [hk, hh]
    next hh => simp [hk, hh]
  next hk => simp [hk]
  next h₁ h₂ =>
    have h₁ : c.kind ≠ .identifier := h₁
    have h₂ : c.kind ≠ .importWord := h₂
    simp [h₁, h₂]

end Readers

theorem parseProgram_eq_ok {c : Cursor} {p : Program} :
    parseProgram c = .ok p ↔ c.kind = .endOfInput ∧ p = [] ∨
      c.kind ≠ .endOfInput ∧ ∃ s d rest, (parseTopLevel c).Yields s d ∧ parseProgram d = .ok rest ∧ p = s :: rest := by
  rw [parseProgram]
  split
  next hk => simp [hk, eq_comm]
  next hk =>
    simp only [hk, false_and, false_or, ne_eq, not_false_eq_true, true_and]
    constructor
    · intro h
      split at h
      next s d hd ho =>
        cases hr : parseProgram d with
        | error e =>
          rw [hr] at h
          cases h
        | ok rest =>
          rw [hr] at h
          cases h
          exact ⟨s, d, rest, ⟨hd, ho⟩, hr, rfl⟩
      next => cases h
    · rintro ⟨s, d, rest, ⟨hd, ho⟩, hr, rfl⟩
      rw [ho]
      simp [hr, Except.map]

/-! ## Shape -/

namespace Stmt

/-- Whether a statement may stand in a block. -/
def isLocal : Stmt → Bool
  | mapper .. | importType .. => false
  | _ => true

/-- Whether a statement may be the branch of a conditional: it declares nothing. -/
def isPlain : Stmt → Bool
  | define .. | function .. | mapper .. | importType .. => false
  | _ => true

/-- Whether an `else` after a statement would belong to an `if` in it. -/
def endsOpen : Stmt → Bool
  | ifThen .. => true
  | ifElse _ _ elseBranch => elseBranch.endsOpen
  | _ => false

mutual

/-- Whether the branches of all conditionals are plain, no `else` belongs to another `if` than the nearest, and blocks
hold what may stand in them. -/
def Shaped : Stmt → Prop
  | ifThen _ thenBranch => thenBranch.isPlain = true ∧ thenBranch.Shaped
  | ifElse _ thenBranch elseBranch =>
    (thenBranch.isPlain = true ∧ thenBranch.endsOpen = false ∧ thenBranch.Shaped) ∧
      elseBranch.isPlain = true ∧ elseBranch.Shaped
  | block body | function _ _ body | mapper _ _ body => AllShaped body
  | expr _ | define .. | print _ | ret .. | importType .. => True

/-- The same for the statements of a block. -/
def AllShaped : List Stmt → Prop
  | [] => True
  | s :: ss => (s.isLocal = true ∧ s.Shaped) ∧ AllShaped ss

end

theorem isLocal_of_isPlain {s : Stmt} (h : s.isPlain = true) : s.isLocal = true := by
  cases s <;> first | rfl | cases h

end Stmt

section Shape

open Stmt

mutual

theorem parseDeclaration_shaped {c d : Cursor} {s : Stmt} (h : (parseDeclaration c).Yields s d) :
    s.isLocal = true ∧ s.Shaped := by
  rcases parseDeclaration_yields.1 h with ⟨-, h⟩ | ⟨hk, f, hf, rfl⟩ | ⟨-, -, h⟩
  · obtain ⟨-, ⟨-, value, x, -, rfl, -⟩ | ⟨-, rfl, -⟩⟩ := parseDefine_yields.1 h
    · exact ⟨rfl, by simp only [Shaped]⟩
    · exact ⟨rfl, by simp only [Shaped]⟩
  · have hlt : c.advance.remaining < c.remaining := remaining_advance_lt (by rw [hk]; decide)
    exact ⟨rfl, by simpa only [Shaped] using parseFunction_shaped hf⟩
  · obtain ⟨hp, hs, -⟩ := parseStatement_shaped h
    exact ⟨isLocal_of_isPlain hp, hs⟩
termination_by (c.remaining, 3)

theorem parseStatement_shaped {c d : Cursor} {s : Stmt} (h : (parseStatement c).Yields s d) :
    s.isPlain = true ∧ s.Shaped ∧ (s.endsOpen = true → d.kind ≠ .elseWord) := by
  rcases parseStatement_yields.1 h with ⟨-, h⟩ | ⟨-, condition, x, thenBranch, y, hx, hy, h⟩ | ⟨-, h⟩ |
    ⟨hk, body, hb, rfl⟩ | h
  · obtain ⟨e, x, -, rfl, -⟩ := parseExprStmt_yields.1 h
    exact ⟨rfl, by simp only [Shaped], nofun⟩
  · have h₁ := c.remaining_advance_le
    have h₂ := hx.nearer
    obtain ⟨hp, hs, ho⟩ := parseStatement_shaped hy
    rcases h with ⟨he, elseBranch, hz, rfl⟩ | ⟨he, rfl, rfl⟩
    · have h₃ := hy.nearer
      have h₄ := y.remaining_advance_le
      obtain ⟨hp', hs', ho'⟩ := parseStatement_shaped hz
      have hopen : thenBranch.endsOpen = false := by
        cases hb : thenBranch.endsOpen with
        | false => rfl
        | true => exact absurd he (ho hb)
      exact ⟨rfl, by simp only [Shaped]; exact ⟨⟨hp, hopen, hs⟩, hp', hs'⟩, ho'⟩
    · exact ⟨rfl, by simp only [Shaped]; exact ⟨hp, hs⟩, fun _ => he⟩
  · rcases h with ⟨-, rfl, -⟩ | ⟨value, x, -, rfl, -⟩
    · exact ⟨rfl, by simp only [Shaped], nofun⟩
    · exact ⟨rfl, by simp only [Shaped], nofun⟩
  · have hlt : c.advance.remaining < c.remaining := remaining_advance_lt (by rw [hk]; decide)
    exact ⟨rfl, by simpa only [Shaped] using parseBlock_shaped hb, nofun⟩
  · obtain ⟨e, x, -, rfl, -⟩ := parseExprStmt_yields.1 h
    exact ⟨rfl, by simp only [Shaped], nofun⟩
termination_by (c.remaining, 2)

theorem parseBlock_shaped {c d : Cursor} {ss : List Stmt} (h : (parseBlock c).Yields ss d) : AllShaped ss := by
  rcases parseBlock_yields.1 h with ⟨-, rfl, -⟩ | ⟨-, -, s, x, rest, hs, hr, rfl⟩
  · exact trivial
  · have hlt := hs.nearer
    exact ⟨parseDeclaration_shaped hs, parseBlock_shaped hr⟩
termination_by (c.remaining, 4)

theorem parseFunction_shaped {c d : Cursor} {f : FunctionDecl} (h : (parseFunction c).Yields f d) :
    AllShaped f.body := by
  obtain ⟨-, -, parameters, x, hx, ⟨-, value, y, -, -, rfl⟩ | ⟨-, body, hb, rfl⟩⟩ := parseFunction_yields.1 h
  · exact ⟨⟨rfl, by simp only [Shaped]⟩, trivial⟩
  · have h₁ := c.remaining_advance_le
    have h₂ := c.advance.remaining_advance_le
    have h₃ := hx.nearer
    have h₄ := x.remaining_advance_le
    exact parseBlock_shaped hb
termination_by (c.remaining, 1)

end

theorem parseTopLevel_shaped {c d : Cursor} {s : Stmt} (h : (parseTopLevel c).Yields s d) : s.Shaped := by
  rcases parseTopLevel_yields.1 h with ⟨-, f, hf, rfl⟩ | ⟨-, h⟩ | ⟨-, -, h⟩
  · simpa only [Shaped] using parseFunction_shaped hf
  · obtain ⟨path, last, x, -, ⟨-, -, rfl, -⟩ | ⟨-, rfl, -⟩⟩ := parseImport_yields.1 h
    · simp only [Shaped]
    · simp only [Shaped]
  · exact (parseDeclaration_shaped h).2

/-- The statements of a template have the shape that the grammar gives them. -/
theorem parse_shaped {tokens : List Token} {p : Program} (h : parse tokens = .ok p) : ∀ s ∈ p, s.Shaped := by
  have hp : ∀ c : Cursor, ∀ p, parseProgram c = .ok p → ∀ s ∈ p, s.Shaped := by
    intro c p h
    induction p generalizing c with
    | nil => simp
    | cons s p ih =>
      rcases parseProgram_eq_ok.1 h with ⟨-, h⟩ | ⟨-, s', d, rest, hs, hr, he⟩
      · cases h
      · obtain ⟨rfl, rfl⟩ := List.cons.inj he
        intro t ht
        rcases List.mem_cons.1 ht with rfl | ht
        · exact parseTopLevel_shaped hs
        · exact ih d hr t ht
  exact hp _ p h

end Shape

end QueryTemplate
