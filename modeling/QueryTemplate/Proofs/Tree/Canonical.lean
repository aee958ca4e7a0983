import QueryTemplate.Tree.Printer
import QueryTemplate.Proofs.Tree.Statements

/-!
# Canonical trees

The canonical form of a tree is read as another tree: operations are in groups of their own, some groups are gone, and
a branch of a conditional may have become a block (`Expr.canonical`, `Stmt.canonical`). That tree has the same canonical
form (`Stmt.lexemes_canonical`), keeps to the precedence (`Expr.wellRanked_canonical`), and is the first tree but for
places, groups and the braces of branches (`Stmt.bare_canonical`).
-/

namespace QueryTemplate

/-- A name without its place. -/
def Ident.unplaced (i : Ident) : Ident := ⟨i.name, .nowhere⟩

theorem Ident.unplaced_unplaced (i : Ident) : i.unplaced.unplaced = i.unplaced := rfl

namespace Expr

/-- An expression in a group, where that is needed. -/
def groupedIf (needed : Bool) (e : Expr) : Expr := if needed then grouping e .nowhere else e

mutual

/-- The tree that the canonical form of an expression is read as. -/
def canonical : Expr → Expr
  | literal l p => literal l p
  | binary op left right p => grouping (binary op left.canonical right.canonical p) p
  | logical op left right p => grouping (logical op left.canonical right.canonical p) p
  | unary op operand p => unary op (operand.canonical.groupedIf operand.isOpen) p
  | grouping inner _ => inner.canonical.groupedIf (!inner.isParenthesized)
  | name i => name i
  | assign target value => assign target value.canonical
  | call callee arguments p => call (callee.canonical.groupedIf callee.isOpen) (canonicalAll arguments) p
  | callMethod receiver method arguments =>
    callMethod (receiver.canonical.groupedIf receiver.isOpen) method (canonicalAll arguments)
  | getField receiver field => getField (receiver.canonical.groupedIf receiver.isOpen) field
  | setField receiver field value => setField (receiver.canonical.groupedIf receiver.isOpen) field value.canonical

/-- The same for arguments. -/
def canonicalAll : List Expr → List Expr
  | [] => []
  | e :: es => e.canonical :: canonicalAll es

end

mutual

/-- An expression without places and groups. -/
def bare : Expr → Expr
  | literal l _ => literal l .nowhere
  | binary op left right _ => binary op left.bare right.bare .nowhere
  | logical op left right _ => logical op left.bare right.bare .nowhere
  | unary op operand _ => unary op operand.bare .nowhere
  | grouping inner _ => inner.bare
  | name i => name i.unplaced
  | assign target value => assign target.unplaced value.bare
  | call callee arguments _ => call callee.bare (bareAll arguments) .nowhere
  | callMethod receiver method arguments => callMethod receiver.bare method.unplaced (bareAll arguments)
  | getField receiver field => getField receiver.bare field.unplaced
  | setField receiver field value => setField receiver.bare field.unplaced value.bare

/-- Arguments without places and groups. -/
def bareAll : List Expr → List Expr
  | [] => []
  | e :: es => e.bare :: bareAll es

end

/-! ## Places do not matter -/

theorem isOpen_unplaced (e : Expr) : e.unplaced.isOpen = e.isOpen := by
  cases e <;> simp only [unplaced, isOpen]

theorem isParenthesized_unplaced (e : Expr) : e.unplaced.isParenthesized = e.isParenthesized := by
  cases e <;> simp only [unplaced, isParenthesized]

mutual

theorem lexemes_unplaced : ∀ e : Expr, e.unplaced.lexemes = e.lexemes
  | literal .. | name _ => by simp only [unplaced, lexemes]
  | binary _ left right _ | logical _ left right _ => by
    simp only [unplaced, lexemes, lexemes_unplaced left, lexemes_unplaced right]
  | unary _ operand _ => by simp only [unplaced, lexemes, isOpen_unplaced, lexemes_unplaced operand]
  | grouping inner _ => by simp only [unplaced, lexemes, isParenthesized_unplaced, lexemes_unplaced inner]
  | assign _ value => by simp only [unplaced, lexemes, lexemes_unplaced value]
  | call e arguments _ | callMethod e _ arguments => by
    simp only [unplaced, lexemes, isOpen_unplaced, lexemes_unplaced e, argumentLexemes_unplaced arguments]
  | getField receiver _ => by simp only [unplaced, lexemes, isOpen_unplaced, lexemes_unplaced receiver]
  | setField receiver _ value => by
    simp only [unplaced, lexemes, isOpen_unplaced, lexemes_unplaced receiver, lexemes_unplaced value]

theorem argumentLexemes_unplaced : ∀ es : List Expr, argumentLexemes (unplacedAll es) = argumentLexemes es
  | [] => rfl
  | e :: es => by simp only [unplacedAll, argumentLexemes, lexemes_unplaced e, furtherLexemes_unplaced es]

theorem furtherLexemes_unplaced : ∀ es : List Expr, furtherLexemes (unplacedAll es) = furtherLexemes es
  | [] => rfl
  | e :: es => by simp only [unplacedAll, furtherLexemes, lexemes_unplaced e, furtherLexemes_unplaced es]

end

mutual

theorem bare_unplaced : ∀ e : Expr, e.unplaced.bare = e.bare
  | literal .. | name _ => by simp only [unplaced, bare, Ident.unplaced]
  | binary _ left right _ | logical _ left right _ => by
    simp only [unplaced, bare, bare_unplaced left, bare_unplaced right]
  | unary _ operand _ => by simp only [unplaced, bare, bare_unplaced operand]
  | grouping inner _ => by simp only [unplaced, bare, bare_unplaced inner]
  | assign _ value => by simp only [unplaced, bare, Ident.unplaced, bare_unplaced value]
  | call e arguments _ | callMethod e _ arguments => by
    simp only [unplaced, bare, Ident.unplaced, bare_unplaced e, bareAll_unplaced arguments]
  | getField receiver _ => by simp only [unplaced, bare, Ident.unplaced, bare_unplaced receiver]
  | setField receiver _ value => by
    simp only [unplaced, bare, Ident.unplaced, bare_unplaced receiver, bare_unplaced value]

theorem bareAll_unplaced : ∀ es : List Expr, bareAll (unplacedAll es) = bareAll es
  | [] => rfl
  | e :: es => by simp only [unplacedAll, bareAll, bare_unplaced e, bareAll_unplaced es]

end

/-! ## Groups -/

@[simp] theorem bare_groupedIf (needed : Bool) (e : Expr) : (e.groupedIf needed).bare = e.bare := by
  cases needed <;> simp only [groupedIf, Bool.false_eq_true, ↓reduceIte, bare]

mutual

theorem bare_canonical : ∀ e : Expr, e.canonical.bare = e.bare
  | literal .. | name _ => by simp only [canonical, bare]
  | binary _ left right _ | logical _ left right _ => by
    simp only [canonical, bare, bare_canonical left, bare_canonical right]
  | unary _ operand _ => by simp only [canonical, bare, bare_groupedIf, bare_canonical operand]
  | grouping inner _ => by simp only [canonical, bare, bare_groupedIf, bare_canonical inner]
  | assign _ value => by simp only [canonical, bare, bare_canonical value]
  | call e arguments _ | callMethod e _ arguments => by
    simp only [canonical, bare, bare_groupedIf, bare_canonical e, bareAll_canonical arguments]
  | getField receiver _ => by simp only [canonical, bare, bare_groupedIf, bare_canonical receiver]
  | setField receiver _ value => by
    simp only [canonical, bare, bare_groupedIf, bare_canonical receiver, bare_canonical value]

theorem bareAll_canonical : ∀ es : List Expr, bareAll (canonicalAll es) = bareAll es
  | [] => rfl
  | e :: es => by simp only [canonicalAll, bareAll, bare_canonical e, bareAll_canonical es]

end

/-- What stands in parentheses is a group. -/
theorem canonical_of_isParenthesized : ∀ {e : Expr}, e.isParenthesized = true →
    ∃ inner p, e.canonical = grouping inner p
  | binary .., _ | logical .., _ => ⟨_, _, by rw [canonical]⟩
  | grouping inner p, _ => by
    rw [canonical]
    cases h : inner.isParenthesized with
    | true => exact canonical_of_isParenthesized h
    | false => exact ⟨_, _, rfl⟩

theorem isParenthesized_canonical {e : Expr} (h : e.isParenthesized = false) :
    e.canonical.isParenthesized = false := by
  cases e with
  | binary | logical | grouping => cases h
  | _ => simp only [canonical, isParenthesized]

/-- What is not open is read as a call or tighter, in a group or without. -/
theorem canonical_of_not_isOpen {e : Expr} (h : e.isOpen = false) :
    8 ≤ e.canonical.rank ∧ e.canonical.endsInSet = false ∧ e.canonical.isOpen = false := by
  have grouped : ∀ {e : Expr}, e.isParenthesized = true →
      8 ≤ e.canonical.rank ∧ e.canonical.endsInSet = false ∧ e.canonical.isOpen = false := fun h => by
    obtain ⟨inner, p, he⟩ := canonical_of_isParenthesized h
    rw [he]
    exact ⟨by simp [rank], rfl, rfl⟩
  cases e with
  | binary | logical | grouping => exact grouped rfl
  | unary | assign | setField => cases h
  | literal | name | call | callMethod | getField =>
    simp only [canonical]
    exact ⟨by simp [rank], rfl, rfl⟩

theorem canonical_of_isOpen {e : Expr} (h : e.isOpen = true) :
    e.canonical.isOpen = true ∧ e.canonical.isParenthesized = false := by
  cases e with
  | unary | assign | setField =>
    simp only [canonical]
    exact ⟨rfl, rfl⟩
  | _ => cases h

/-- An operand, callee or receiver is grouped where it would be open. -/
theorem groupedIf_isOpen (e : Expr) : 8 ≤ (e.canonical.groupedIf e.isOpen).rank ∧
    (e.canonical.groupedIf e.isOpen).endsInSet = false ∧ (e.canonical.groupedIf e.isOpen).isOpen = false := by
  cases h : e.isOpen with
  | true => exact ⟨by simp [groupedIf, rank], rfl, rfl⟩
  | false => exact canonical_of_not_isOpen h

theorem lexemes_groupedIf_isOpen {e : Expr} (h : e.canonical.lexemes = e.lexemes) :
    parenthesizedIf (e.canonical.groupedIf e.isOpen).isOpen (e.canonical.groupedIf e.isOpen).lexemes =
      parenthesizedIf e.isOpen e.lexemes := by
  rw [(groupedIf_isOpen e).2.2]
  cases ho : e.isOpen with
  | true =>
    simp only [groupedIf, ↓reduceIte, lexemes, (canonical_of_isOpen ho).2, h]
    rfl
  | false => exact h

mutual

theorem lexemes_canonical : ∀ e : Expr, e.canonical.lexemes = e.lexemes
  | literal .. | name _ => by simp only [canonical, lexemes]
  | binary _ left right _ | logical _ left right _ => by
    simp only [canonical, lexemes, isParenthesized, lexemes_canonical left, lexemes_canonical right]
    rfl
  | unary _ operand _ => by simp only [canonical, lexemes, lexemes_groupedIf_isOpen (lexemes_canonical operand)]
  | grouping inner _ => by
    rw [canonical, lexemes]
    cases h : inner.isParenthesized with
    | true => exact lexemes_canonical inner
    | false =>
      simp only [groupedIf, Bool.not_false, ↓reduceIte, lexemes, lexemes_canonical inner,
        isParenthesized_canonical h]
  | assign _ value => by simp only [canonical, lexemes, lexemes_canonical value]
  | call e arguments _ | callMethod e _ arguments => by
    simp only [canonical, lexemes, lexemes_groupedIf_isOpen (lexemes_canonical e), argumentLexemes_canonical arguments]
  | getField receiver _ => by simp only [canonical, lexemes, lexemes_groupedIf_isOpen (lexemes_canonical receiver)]
  | setField receiver _ value => by
    simp only [canonical, lexemes, lexemes_groupedIf_isOpen (lexemes_canonical receiver), lexemes_canonical value]

theorem argumentLexemes_canonical : ∀ es : List Expr, argumentLexemes (canonicalAll es) = argumentLexemes es
  | [] => rfl
  | e :: es => by simp only [canonicalAll, argumentLexemes, lexemes_canonical e, furtherLexemes_canonical es]

theorem furtherLexemes_canonical : ∀ es : List Expr, furtherLexemes (canonicalAll es) = furtherLexemes es
  | [] => rfl
  | e :: es => by simp only [canonicalAll, furtherLexemes, lexemes_canonical e, furtherLexemes_canonical es]

end

/-! ## Precedence -/

theorem rank_canonical {e : Expr} (h : 1 ≤ e.rank) : 7 ≤ e.canonical.rank := by
  cases e with
  | assign => simp [rank] at h
  | unary | setField =>
    simp only [canonical]
    simp [rank]
  | _ => exact Nat.le_trans (by decide) (canonical_of_not_isOpen rfl).1

theorem endsInSet_canonical : ∀ {e : Expr}, e.endsInSet = false → e.canonical.endsInSet = false
  | unary _ operand _, _ => by
    simp only [canonical, endsInSet]
    exact (groupedIf_isOpen operand).2.1
  | assign _ value, h => by
    simp only [canonical, endsInSet] at h ⊢
    exact endsInSet_canonical h
  | literal .., _ | binary .., _ | logical .., _ | grouping .., _ | name _, _ | call .., _ | callMethod .., _
  | getField .., _ => (canonical_of_not_isOpen rfl).2.1

theorem isGetField_canonical {e : Expr} (h : e.isGetField = false) :
    (e.canonical.groupedIf e.isOpen).isGetField = false := by
  have grouped : ∀ {e : Expr}, e.isParenthesized = true → e.canonical.isGetField = false := fun h => by
    obtain ⟨inner, p, he⟩ := canonical_of_isParenthesized h
    rw [he]
    rfl
  cases e with
  | getField => cases h
  | binary | logical | grouping => exact grouped rfl
  | literal | name | call | callMethod =>
    simp only [canonical]
    rfl
  | unary | assign | setField => rfl

theorem wellRanked_groupedIf {needed : Bool} {e : Expr} (h : e.WellRanked) : (e.groupedIf needed).WellRanked := by
  cases needed with
  | true =>
    simp only [groupedIf, ↓reduceIte, WellRanked]
    exact h
  | false => exact h

mutual

theorem wellRanked_canonical : ∀ {e : Expr}, e.WellRanked → e.canonical.WellRanked
  | literal .., _ | name _, _ => by simp only [canonical, WellRanked]
  | binary op left right p, h => by
    simp only [canonical, WellRanked] at h ⊢
    obtain ⟨hl, hr, hs, hwl, hwr⟩ := h
    have h₁ := (Operator.binary op).level_pos
    have h₂ := (Operator.binary op).level_le
    have h₃ : 7 ≤ left.canonical.rank := rank_canonical (by omega)
    have h₄ : 7 ≤ right.canonical.rank := rank_canonical (by omega)
    exact ⟨by omega, by omega, endsInSet_canonical hs, wellRanked_canonical hwl, wellRanked_canonical hwr⟩
  | logical op left right p, h => by
    simp only [canonical, WellRanked] at h ⊢
    obtain ⟨hl, hr, hs, hwl, hwr⟩ := h
    have h₁ := (Operator.logical op).level_pos
    have h₂ := (Operator.logical op).level_le
    have h₃ : 7 ≤ left.canonical.rank := rank_canonical (by omega)
    have h₄ : 7 ≤ right.canonical.rank := rank_canonical (by omega)
    exact ⟨by omega, by omega, endsInSet_canonical hs, wellRanked_canonical hwl, wellRanked_canonical hwr⟩
  | unary op operand p, h => by
    simp only [canonical, WellRanked] at h ⊢
    exact ⟨Nat.le_trans (by decide) (groupedIf_isOpen operand).1, wellRanked_groupedIf (wellRanked_canonical h.2)⟩
  | grouping inner p, h => by
    simp only [canonical, WellRanked] at h ⊢
    exact wellRanked_groupedIf (wellRanked_canonical h)
  | assign target value, h => by
    simp only [canonical, WellRanked] at h ⊢
    exact wellRanked_canonical h
  | call callee arguments p, h => by
    simp only [canonical, WellRanked] at h ⊢
    obtain ⟨-, -, hg, hw, ha⟩ := h
    obtain ⟨hr, hs, -⟩ := groupedIf_isOpen callee
    exact ⟨hr, hs, isGetField_canonical hg, wellRanked_groupedIf (wellRanked_canonical hw), wellRankedAll_canonical ha⟩
  | callMethod receiver method arguments, h => by
    simp only [canonical, WellRanked] at h ⊢
    obtain ⟨-, -, hw, ha⟩ := h
    obtain ⟨hr, hs, -⟩ := groupedIf_isOpen receiver
    exact ⟨hr, hs, wellRanked_groupedIf (wellRanked_canonical hw), wellRankedAll_canonical ha⟩
  | getField receiver field, h => by
    simp only [canonical, WellRanked] at h ⊢
    obtain ⟨-, -, hw⟩ := h
    obtain ⟨hr, hs, -⟩ := groupedIf_isOpen receiver
    exact ⟨hr, hs, wellRanked_groupedIf (wellRanked_canonical hw)⟩
  | setField receiver field value, h => by
    simp only [canonical, WellRanked] at h ⊢
    obtain ⟨-, -, hw, hv⟩ := h
    obtain ⟨hr, hs, -⟩ := groupedIf_isOpen receiver
    exact ⟨hr, hs, wellRanked_groupedIf (wellRanked_canonical hw), wellRanked_canonical hv⟩

theorem wellRankedAll_canonical : ∀ {es : List Expr}, AllWellRanked es → AllWellRanked (canonicalAll es)
  | [], _ => trivial
  | _ :: _, h => ⟨wellRanked_canonical h.1, wellRankedAll_canonical h.2⟩

end

end Expr

/-! ## Statements -/

namespace Stmt

/-- A statement in a block of its own, where that is needed. -/
def blockIf (needed : Bool) (s : Stmt) : Stmt := if needed then block [s] else s

/-- A block of one expression statement without its braces. -/
def unbraced : Stmt → Stmt
  | block [expr e] => expr e
  | s => s

mutual

/-- The tree that the canonical form of a statement is read as. -/
def canonical : Stmt → Stmt
  | expr e => expr e.canonical
  | define name value => define name value.canonical
  | print e => print e.canonical
  | ifThen condition thenBranch =>
    ifThen condition.canonical (thenBranch.canonical.blockIf thenBranch.continuesCondition)
  | ifElse condition thenBranch elseBranch =>
    ifElse condition.canonical (thenBranch.canonical.blockIf thenBranch.continuesCondition) elseBranch.canonical
  | block body => block (canonicalAll body)
  | function name parameters body => function name parameters (canonicalAll body)
  | mapper name parameters body => mapper name parameters (canonicalAll body)
  | ret (some value) p => ret (some value.canonical) p
  | ret none p => ret none p
  | importType path localName => importType path localName

/-- The same for the statements of a block. -/
def canonicalAll : List Stmt → List Stmt
  | [] => []
  | s :: ss => s.canonical :: canonicalAll ss

end

mutual

/-- A statement without its places. -/
def unplaced : Stmt → Stmt
  | expr e => expr e.unplaced
  | define name value => define name.unplaced value.unplaced
  | print e => print e.unplaced
  | ifThen condition thenBranch => ifThen condition.unplaced thenBranch.unplaced
  | ifElse condition thenBranch elseBranch => ifElse condition.unplaced thenBranch.unplaced elseBranch.unplaced
  | block body => block (unplacedAll body)
  | function name parameters body => function name.unplaced (parameters.map Ident.unplaced) (unplacedAll body)
  | mapper name parameters body => mapper name.unplaced (parameters.map Ident.unplaced) (unplacedAll body)
  | ret (some value) _ => ret (some value.unplaced) .nowhere
  | ret none _ => ret none .nowhere
  | importType path localName => importType path localName.unplaced

/-- Statements without their places. -/
def unplacedAll : List Stmt → List Stmt
  | [] => []
  | s :: ss => s.unplaced :: unplacedAll ss

end

mutual

/-- A statement without places, groups, and braces around an expression statement that is the first branch of a
conditional. -/
def bare : Stmt → Stmt
  | expr e => expr e.bare
  | define name value => define name.unplaced value.bare
  | print e => print e.bare
  | ifThen condition thenBranch => ifThen condition.bare thenBranch.bare.unbraced
  | ifElse condition thenBranch elseBranch => ifElse condition.bare thenBranch.bare.unbraced elseBranch.bare
  | block body => block (bareAll body)
  | function name parameters body => function name.unplaced (parameters.map Ident.unplaced) (bareAll body)
  | mapper name parameters body => mapper name.unplaced (parameters.map Ident.unplaced) (bareAll body)
  | ret (some value) _ => ret (some value.bare) .nowhere
  | ret none _ => ret none .nowhere
  | importType path localName => importType path localName.unplaced

/-- Statements without places, groups and those braces. -/
def bareAll : List Stmt → List Stmt
  | [] => []
  | s :: ss => s.bare :: bareAll ss

end

/-- Two statements are the same tree but for places, groups, and braces around an expression statement that is the first
branch of a conditional. -/
def Alike (s t : Stmt) : Prop := s.bare = t.bare

/-! ## Places do not matter -/

theorem map_unplaced_unplaced (ps : List Ident) :
    (ps.map Ident.unplaced).map Ident.unplaced = ps.map Ident.unplaced := by
  rw [List.map_map]
  rfl

theorem ofParameters_unplaced (ps : List Ident) :
    Lexeme.ofParameters (ps.map Ident.unplaced) = Lexeme.ofParameters ps := by
  cases ps with
  | nil => rfl
  | cons p ps =>
    simp only [Lexeme.ofParameters, List.map_cons, List.flatMap_map]
    rfl

theorem continuesCondition_unplaced (s : Stmt) : s.unplaced.continuesCondition = s.continuesCondition := by
  cases s with
  | expr e => simp only [unplaced, continuesCondition, Expr.lexemes_unplaced]
  | ret value => cases value <;> simp only [unplaced, continuesCondition]
  | _ => simp only [unplaced, continuesCondition]

mutual

theorem lexemes_unplaced : ∀ (s : Stmt) (depth : Nat), s.unplaced.lexemes depth = s.lexemes depth
  | expr _, _ | define .., _ | print _, _ | ret (some _) _, _ => by
    simp only [unplaced, lexemes, Expr.lexemes_unplaced, Ident.unplaced]
  | ret none _, _ | importType .., _ => by simp only [unplaced, lexemes, Ident.unplaced]
  | ifThen condition thenBranch, depth => by
    simp only [unplaced, lexemes, Expr.lexemes_unplaced, continuesCondition_unplaced, lexemes_unplaced thenBranch]
  | ifElse condition thenBranch elseBranch, depth => by
    simp only [unplaced, lexemes, Expr.lexemes_unplaced, continuesCondition_unplaced, lexemes_unplaced thenBranch,
      lexemes_unplaced elseBranch]
  | block body, depth => by simp only [unplaced, lexemes, blockLexemes_unplaced body]
  | function name parameters body, depth | mapper name parameters body, depth => by
    simp only [unplaced, lexemes, Ident.unplaced, ofParameters_unplaced, blockLexemes_unplaced body]

theorem blockLexemes_unplaced : ∀ (ss : List Stmt) (depth : Nat),
    blockLexemes depth (unplacedAll ss) = blockLexemes depth ss
  | [], _ => rfl
  | s :: ss, depth => by simp only [unplacedAll, blockLexemes, lexemes_unplaced s, furtherLexemes_unplaced ss]

theorem furtherLexemes_unplaced : ∀ (ss : List Stmt) (depth : Nat),
    furtherLexemes depth (unplacedAll ss) = furtherLexemes depth ss
  | [], _ => rfl
  | s :: ss, depth => by simp only [unplacedAll, furtherLexemes, lexemes_unplaced s, furtherLexemes_unplaced ss]

end

mutual

theorem bare_unplaced : ∀ s : Stmt, s.unplaced.bare = s.bare
  | expr _ | define .. | print _ | ret (some _) _ => by
    simp only [unplaced, bare, Expr.bare_unplaced, Ident.unplaced_unplaced]
  | ret none _ | importType .. => by simp only [unplaced, bare, Ident.unplaced_unplaced]
  | ifThen condition thenBranch => by simp only [unplaced, bare, Expr.bare_unplaced, bare_unplaced thenBranch]
  | ifElse condition thenBranch elseBranch => by
    simp only [unplaced, bare, Expr.bare_unplaced, bare_unplaced thenBranch, bare_unplaced elseBranch]
  | block body => by simp only [unplaced, bare, bareAll_unplaced body]
  | function name parameters body | mapper name parameters body => by
    simp only [unplaced, bare, Ident.unplaced_unplaced, map_unplaced_unplaced, bareAll_unplaced body]

theorem bareAll_unplaced : ∀ ss : List Stmt, bareAll (unplacedAll ss) = bareAll ss
  | [] => rfl
  | s :: ss => by simp only [unplacedAll, bareAll, bare_unplaced s, bareAll_unplaced ss]

end

/-! ## The canonical tree -/

/-- Only an expression statement gets braces. -/
theorem eq_expr_of_continuesCondition {s : Stmt} (h : s.continuesCondition = true) : ∃ e, s = expr e := by
  cases s with
  | expr e => exact ⟨e, rfl⟩
  | _ => cases h

theorem bare_blockIf {s t : Stmt} (h : s.bare = t.bare) :
    (s.blockIf t.continuesCondition).bare.unbraced = t.bare.unbraced := by
  cases hc : t.continuesCondition with
  | false => exact congrArg _ h
  | true =>
    obtain ⟨e, rfl⟩ := eq_expr_of_continuesCondition hc
    simp only [blockIf, ↓reduceIte, bare, bareAll, h, unbraced]

mutual

theorem bare_canonical : ∀ s : Stmt, s.canonical.bare = s.bare
  | expr _ | define .. | print _ | ret (some _) _ => by simp only [canonical, bare, Expr.bare_canonical]
  | ret none _ | importType .. => by simp only [canonical]
  | ifThen condition thenBranch => by
    simp only [canonical, bare, Expr.bare_canonical, bare_blockIf (bare_canonical thenBranch)]
  | ifElse condition thenBranch elseBranch => by
    simp only [canonical, bare, Expr.bare_canonical, bare_blockIf (bare_canonical thenBranch),
      bare_canonical elseBranch]
  | block body => by simp only [canonical, bare, bareAll_canonical body]
  | function name parameters body | mapper name parameters body => by
    simp only [canonical, bare, bareAll_canonical body]

theorem bareAll_canonical : ∀ ss : List Stmt, bareAll (canonicalAll ss) = bareAll ss
  | [] => rfl
  | s :: ss => by simp only [canonicalAll, bareAll, bare_canonical s, bareAll_canonical ss]

end

/-- A branch in braces needs no others, and is written as the branch that gets them. -/
theorem lexemes_blockIf {s t : Stmt} (h : ∀ depth, s.lexemes depth = t.lexemes depth)
    (hc : s.continuesCondition = t.continuesCondition) (depth : Nat) :
    bracedIf (s.blockIf t.continuesCondition).continuesCondition depth
        (fun d => (s.blockIf t.continuesCondition).lexemes d) =
      bracedIf t.continuesCondition depth (fun d => t.lexemes d) := by
  cases ht : t.continuesCondition with
  | false =>
    rw [blockIf, if_neg (by decide), hc, ht]
    exact h depth
  | true =>
    simp only [blockIf, ↓reduceIte, continuesCondition, bracedIf, Bool.false_eq_true, lexemes, blockLexemes,
      furtherLexemes, h, List.append_nil]
    rfl

theorem continuesCondition_canonical (s : Stmt) : s.canonical.continuesCondition = s.continuesCondition := by
  cases s with
  | expr e => simp only [canonical, continuesCondition, Expr.lexemes_canonical]
  | ret value => cases value <;> simp only [canonical, continuesCondition]
  | _ => simp only [canonical, continuesCondition]

mutual

theorem lexemes_canonical : ∀ (s : Stmt) (depth : Nat), s.canonical.lexemes depth = s.lexemes depth
  | expr _, _ | define .., _ | print _, _ | ret (some _) _, _ => by
    simp only [canonical, lexemes, Expr.lexemes_canonical]
  | ret none _, _ | importType .., _ => by simp only [canonical]
  | ifThen condition thenBranch, depth => by
    simp only [canonical, lexemes, Expr.lexemes_canonical,
      lexemes_blockIf (lexemes_canonical thenBranch) (continuesCondition_canonical thenBranch)]
  | ifElse condition thenBranch elseBranch, depth => by
    simp only [canonical, lexemes, Expr.lexemes_canonical,
      lexemes_blockIf (lexemes_canonical thenBranch) (continuesCondition_canonical thenBranch),
      lexemes_canonical elseBranch]
  | block body, depth => by simp only [canonical, lexemes, blockLexemes_canonical body]
  | function name parameters body, depth | mapper name parameters body, depth => by
    simp only [canonical, lexemes, blockLexemes_canonical body]

theorem blockLexemes_canonical : ∀ (ss : List Stmt) (depth : Nat),
    blockLexemes depth (canonicalAll ss) = blockLexemes depth ss
  | [], _ => rfl
  | s :: ss, depth => by simp only [canonicalAll, blockLexemes, lexemes_canonical s, furtherLexemes_canonical ss]

theorem furtherLexemes_canonical : ∀ (ss : List Stmt) (depth : Nat),
    furtherLexemes depth (canonicalAll ss) = furtherLexemes depth ss
  | [], _ => rfl
  | s :: ss, depth => by simp only [canonicalAll, furtherLexemes, lexemes_canonical s, furtherLexemes_canonical ss]

end

end Stmt

end QueryTemplate
