import Mathlib.Data.List.Chain
import QueryTemplate.Tree.StmtParser
import QueryTemplate.Proofs.Tree.Symbols

/-!
# The symbols of a statement

`Stmt.symbols` writes a statement down as symbols, with all semicolons. At top level a mapper and an expression
statement can both start with a name and an opening parenthesis; which of the two it is shows in what follows the first
closing parenthesis (`isMapperHeader_expr`, `isMapperHeader_mapper`).
-/

namespace QueryTemplate

open TokenKind

/-- The symbols of the names of a path, with points between them. -/
def pathSymbols (names : List (List Char)) : List Symbol :=
  (names.map fun cs => (identifier, .text (String.ofList cs))).intersperse dot.bare

/-- The symbols of one or more parameters with commas between them, and the closing parenthesis. -/
def parameterListSymbols (p : Ident) : List Ident → List Symbol
  | [] => [p.symbol, rightParen.bare]
  | q :: ps => p.symbol :: comma.bare :: parameterListSymbols q ps

/-- The symbols of parameters, and the closing parenthesis. -/
def parameterSymbols : List Ident → List Symbol
  | [] => [rightParen.bare]
  | p :: ps => parameterListSymbols p ps

namespace Stmt

/-- The symbols of an import from its path on. -/
def importSymbols (path localName : String) : List Symbol :=
  pathSymbols (path.toList.splitOn '.')
    ++ (if (path.toList.splitOn '.').getLast? = some localName.toList then []
        else [(identifier, .text "as"), (identifier, .text localName)])
    ++ [semicolon.bare]

mutual

/-- The symbols of a statement, from left to right. -/
def symbols : Stmt → List Symbol
  | expr e => e.symbols ++ [semicolon.bare]
  | define name value => varWord.bare :: name.symbol :: equal.bare :: (value.symbols ++ [semicolon.bare])
  | print e => printWord.bare :: (e.symbols ++ [semicolon.bare])
  | ifThen condition thenBranch => ifWord.bare :: (condition.symbols ++ thenBranch.symbols)
  | ifElse condition thenBranch elseBranch =>
    ifWord.bare :: (condition.symbols ++ (thenBranch.symbols ++ elseWord.bare :: elseBranch.symbols))
  | block body => leftBrace.bare :: (symbolsOfAll body ++ [rightBrace.bare])
  | function name parameters body =>
    funWord.bare :: name.symbol :: leftParen.bare ::
      (parameterSymbols parameters ++ leftBrace.bare :: (symbolsOfAll body ++ [rightBrace.bare]))
  | mapper name parameters body =>
    name.symbol :: leftParen.bare ::
      (parameterSymbols parameters ++ leftBrace.bare :: (symbolsOfAll body ++ [rightBrace.bare]))
  | ret (some value) _ => returnWord.bare :: (value.symbols ++ [semicolon.bare])
  | ret none _ => [returnWord.bare, semicolon.bare]
  | importType path localName => importWord.bare :: importSymbols path localName.name

/-- The symbols of statements one after the other. -/
def symbolsOfAll : List Stmt → List Symbol
  | [] => []
  | s :: ss => s.symbols ++ symbolsOfAll ss

end

end Stmt

/-! ## First symbols -/

/-- Whether a statement can start with a token of this kind. -/
def TokenKind.startsStmt : TokenKind → Bool
  | leftBrace | varWord | funWord | ifWord | returnWord | importWord | printWord => true
  | k => k.startsExpr

theorem TokenKind.startsStmt_of_startsExpr {k : TokenKind} (h : k.startsExpr = true) : k.startsStmt = true := by
  cases k <;> first | rfl | cases h

theorem TokenKind.ne_of_startsStmt {k : TokenKind} (h : k.startsStmt = true) :
    k ≠ elseWord ∧ k ≠ rightBrace ∧ k ≠ endOfInput := by
  refine ⟨?_, ?_, ?_⟩ <;> (rintro rfl; cases h)

/-- A statement has a first symbol, of a kind that starts one. -/
theorem Stmt.symbols_eq_cons (s : Stmt) : ∃ k p ss, s.symbols = (k, p) :: ss ∧ k.startsStmt = true := by
  cases s with
  | expr e =>
    obtain ⟨⟨k, p⟩, ss, hs, hk⟩ := e.symbols_eq_cons
    exact ⟨k, p, ss ++ [semicolon.bare], by rw [symbols, hs]; rfl, startsStmt_of_startsExpr hk⟩
  | ret value => cases value <;> exact ⟨_, _, _, by rw [symbols], rfl⟩
  | _ => exact ⟨_, _, _, by rw [symbols], rfl⟩

/-! ## Mappers and calls -/

/-- Whether no body opens right after a closing parenthesis. -/
def Bodiless (ks : List TokenKind) : Prop := ks.IsChain fun k k' => k = rightParen → k'.opensBody = false

section Bodiless

variable {ks ks' : List TokenKind}

theorem Bodiless.append (h : Bodiless ks) (h' : Bodiless ks') (hh : ∀ k ∈ ks'.head?, k.opensBody = false) :
    Bodiless (ks ++ ks') :=
  List.IsChain.append h h' fun _ _ k hk _ => hh k hk

theorem Bodiless.cons {k : TokenKind} (hk : k ≠ rightParen) (h : Bodiless ks) : Bodiless (k :: ks) :=
  List.isChain_cons.2 ⟨fun _ _ he => absurd he hk, h⟩

theorem bodiless_singleton (k : TokenKind) : Bodiless [k] := .singleton k

end Bodiless

namespace Expr

mutual

theorem bodiless_symbols : ∀ e : Expr, Bodiless (e.symbols.map Prod.fst)
  | literal .. | name _ => by
    simp only [symbols]
    exact bodiless_singleton _
  | binary op left right _ | logical op left right _ => by
    simp only [symbols, List.map_append, List.map_cons]
    refine (bodiless_symbols left).append (.cons (by cases op <;> nofun) (bodiless_symbols right)) ?_
    rintro k hk
    cases hk
    cases op <;> rfl
  | unary op operand _ => by
    simp only [symbols, List.map_cons]
    exact .cons (by cases op <;> nofun) (bodiless_symbols operand)
  | grouping inner _ => by
    simp only [symbols, List.map_cons, List.map_append]
    exact .cons nofun ((bodiless_symbols inner).append (bodiless_singleton _) (by rintro k hk; cases hk; rfl))
  | assign target value => by
    simp only [symbols, List.map_cons]
    exact .cons nofun (.cons nofun (bodiless_symbols value))
  | call callee arguments _ => by
    simp only [symbols, List.map_append, List.map_cons]
    exact (bodiless_symbols callee).append (.cons nofun (bodiless_closedSymbols arguments))
      (by rintro k hk; cases hk; rfl)
  | callMethod receiver method arguments => by
    simp only [symbols, List.map_append, List.map_cons]
    exact (bodiless_symbols receiver).append
      (.cons nofun (.cons nofun (.cons nofun (bodiless_closedSymbols arguments)))) (by rintro k hk; cases hk; rfl)
  | getField receiver field => by
    simp only [symbols, List.map_append, List.map_cons]
    exact (bodiless_symbols receiver).append (.cons nofun (bodiless_singleton _)) (by rintro k hk; cases hk; rfl)
  | setField receiver field value => by
    simp only [symbols, List.map_append, List.map_cons]
    exact (bodiless_symbols receiver).append (.cons nofun (.cons nofun (.cons nofun (bodiless_symbols value))))
      (by rintro k hk; cases hk; rfl)

theorem bodiless_closedSymbols : ∀ es : List Expr, Bodiless ((closedSymbols es).map Prod.fst)
  | [] => bodiless_singleton _
  | e :: es => by
    simp only [closedSymbols, List.map_append]
    exact (bodiless_symbols e).append (bodiless_furtherSymbols es).1 (bodiless_furtherSymbols es).2

theorem bodiless_furtherSymbols : ∀ es : List Expr, Bodiless ((furtherSymbols es).map Prod.fst) ∧
    ∀ k ∈ ((furtherSymbols es).map Prod.fst).head?, k.opensBody = false
  | [] => ⟨bodiless_singleton _, by rintro k hk; cases hk; rfl⟩
  | e :: es => by
    simp only [furtherSymbols, List.cons_append, List.map_cons, List.map_append]
    exact ⟨.cons nofun ((bodiless_symbols e).append (bodiless_furtherSymbols es).1 (bodiless_furtherSymbols es).2),
      by rintro k hk; cases hk; rfl⟩

end

end Expr

section Headers

variable {ks ks' : List TokenKind}

/-- No head of a mapper reaches past a semicolon, or past a closing parenthesis that no body opens after. -/
theorem isParameterTail_of_bodiless {all : List TokenKind} (h : isParameterTail all = true)
    (he : all = ks ++ semicolon :: ks') : ¬Bodiless (ks ++ [semicolon]) := by
  induction all using isParameterTail.induct generalizing ks with
  | case1 rest ih =>
    match ks with
    | [] => cases he
    | [_] => cases he
    | k :: k' :: ks =>
      intro hb
      simp only [List.cons_append, List.cons.injEq] at he
      exact ih h he.2.2 (List.isChain_cons.1 (List.isChain_cons.1 hb).2).2
  | case2 k rest =>
    match ks with
    | [] => cases he
    | [_] => cases he
    | [_, _] =>
      obtain rfl : k = semicolon := by simpa using (List.cons.inj (List.cons.inj (List.cons.inj he).2).2).1
      cases h
    | k₁ :: k₂ :: k₃ :: ks =>
      intro hb
      simp only [List.cons_append, List.cons.injEq] at he
      obtain ⟨rfl, rfl, rfl, -⟩ := he
      have hopens := (List.isChain_cons.1 (List.isChain_cons.1 hb).2).1 k rfl rfl
      rw [isParameterTail, hopens] at h
      cases h
  | case3 all h₁ h₂ =>
    rw [isParameterTail] at h
    · cases h
    · exact h₁
    · exact h₂

theorem isMapperHeader_of_bodiless (h : Bodiless (ks ++ [semicolon])) :
    isMapperHeader (ks ++ semicolon :: ks') = false := by
  generalize he : ks ++ semicolon :: ks' = all
  unfold isMapperHeader
  split
  next k rest =>
    match ks with
    | [] => cases he
    | [_] => cases he
    | [_, _] => cases he
    | [_, _, _] =>
      obtain rfl := (List.cons.inj (List.cons.inj (List.cons.inj (List.cons.inj he).2).2).2).1
      rfl
    | k₁ :: k₂ :: k₃ :: k₄ :: ks =>
      simp only [List.cons_append, List.cons.injEq] at he
      obtain ⟨rfl, rfl, rfl, rfl, -⟩ := he
      exact (List.isChain_cons.1 (List.isChain_cons.1 (List.isChain_cons.1 h).2).2).1 k₄ rfl rfl
  next rest _ =>
    match ks with
    | [] => cases he
    | [_] => cases he
    | k₁ :: k₂ :: ks =>
      simp only [List.cons_append, List.cons.injEq] at he
      cases ht : isParameterTail rest with
      | false => rfl
      | true =>
        exact absurd (List.isChain_cons.1 (List.isChain_cons.1 h).2).2 (isParameterTail_of_bodiless ht he.2.2.symm)
  next => rfl

/-- An expression statement has no head of a mapper. -/
theorem isMapperHeader_expr (e : Expr) (ks : List TokenKind) :
    isMapperHeader ((Stmt.expr e).symbols.map Prod.fst ++ ks) = false := by
  simp only [Stmt.symbols, List.map_append, List.append_assoc]
  exact isMapperHeader_of_bodiless (e.bodiless_symbols.append (bodiless_singleton _) (by rintro k hk; cases hk; rfl))

theorem isParameterTail_parameterListSymbols (p : Ident) (ps : List Ident) (ks : List TokenKind) :
    isParameterTail ((parameterListSymbols p ps).map Prod.fst ++ leftBrace :: ks) = true := by
  induction ps generalizing p with
  | nil => rfl
  | cons q ps ih => exact ih q

/-- A mapper has the head of a mapper. -/
theorem isMapperHeader_mapper (name : Ident) (parameters : List Ident) (body : List Stmt) (ks : List TokenKind) :
    isMapperHeader ((Stmt.mapper name parameters body).symbols.map Prod.fst ++ ks) = true := by
  simp only [Stmt.symbols, List.map_cons, List.map_append, List.cons_append, List.append_assoc]
  cases parameters with
  | nil => rfl
  | cons p ps =>
    have h := isParameterTail_parameterListSymbols p ps ((Stmt.symbolsOfAll body).map Prod.fst ++ rightBrace :: ks)
    cases ps <;> exact h

end Headers

end QueryTemplate
