import QueryTemplate.Tree.ExprParser

/-!
# Reading statements and templates

Semicolons after statements may be left out. Inside blocks there are declarations and statements; imports and
mappers stand at top level only. A mapper looks like a call at first, so its header is recognised by looking ahead
(`isMapperHeader`).
-/

namespace QueryTemplate

open Cursor

/-- `var name = value` or `var name`, from the word on; without a value the name is bound to null. -/
def parseDefine (c : Cursor) : Parsed Stmt c.remaining :=
  have := c.remaining_advance_le
  (c.advance.expectName .variableName).andThen fun name d hd =>
    if d.kind = .equal then
      have := d.remaining_advance_le
      (parseExpr d.advance).andThen fun value e he =>
        have := e.remaining_skipSemicolon_le
        .ok (.define name value) e.skipSemicolon (by omega)
    else
      have := d.remaining_skipSemicolon_le
      .ok (.define name (.literal .null name.position)) d.skipSemicolon (by omega)

/-- One or more parameters up to and with the closing parenthesis. -/
def parseParameterList (c : Cursor) : Parsed (List Ident) c.remaining :=
  (c.expectName .parameterName).andThen fun name d hd =>
    if d.kind = .comma then
      (parseParameterList d.advance).map (name :: ·) (remaining_advance_le_trans hd)
    else (d.expect .closeParameters).map (fun _ => [name]) (remaining_le_of_lt hd)
termination_by c.remaining
decreasing_by exact remaining_advance_lt_trans hd

/-- Parameters up to and with the closing parenthesis. -/
def parseParameters (c : Cursor) : Parsed (List Ident) c.remaining :=
  if h : c.kind = .rightParen then .ok [] c.advance (remaining_advance_lt_of_rightParen h)
  else parseParameterList c

/-- The path of an import: names with points between them. Yields the path and its last name. -/
def parsePath (role : NameRole) (c : Cursor) : Parsed (String × Ident) c.remaining :=
  (c.expectName role).andThen fun name d hd =>
    if d.kind = .dot then
      have := d.remaining_advance_le
      (parsePath .typePathSegment d.advance).map (fun (path, last) => (name.name ++ "." ++ path, last)) (by omega)
    else .ok (name.name, name) d hd
termination_by c.remaining

/-- `import path` or `import path as name`, from the word on. The local name is else the last of the path. -/
def parseImport (c : Cursor) : Parsed Stmt c.remaining :=
  have := c.remaining_advance_le
  (parsePath .typePath c.advance).andThen fun (path, last) d hd =>
    if d.kind = .identifier ∧ d.current.payload.text? = some "as" then
      have := d.remaining_advance_le
      (d.advance.expectName .importAlias).andThen fun localName e he =>
        have := e.remaining_skipSemicolon_le
        .ok (.importType path localName) e.skipSemicolon (by omega)
    else
      have := d.remaining_skipSemicolon_le
      .ok (.importType path last) d.skipSemicolon (by omega)

/-- `return` or `return value`, from the word on. There is no value before a closing brace, a semicolon or the end. -/
def parseReturn (c : Cursor) (hc : c.kind = .returnWord) : Parsed Stmt c.remaining :=
  have := remaining_advance_lt (c := c) (by rw [hc]; decide)
  let position := c.current.position
  match c.advance.kind with
  | .rightBrace | .semicolon | .endOfInput =>
    have := c.advance.remaining_skipSemicolon_le
    .ok (.ret none position) c.advance.skipSemicolon (by omega)
  | _ =>
    (parseExpr c.advance).andThen fun value d hd =>
      have := d.remaining_skipSemicolon_le
      .ok (.ret (some value) position) d.skipSemicolon (by omega)

/-- An expression and the statement that it is, with the semicolon after it. -/
def parseExprStmt (make : Expr → Stmt) (c : Cursor) : Parsed Stmt c.remaining :=
  (parseExpr c).andThen fun e d hd =>
    have := d.remaining_skipSemicolon_le
    .ok (make e) d.skipSemicolon (by omega)

mutual

/-- What may stand in a block: a definition, a function or a statement. -/
def parseDeclaration (c : Cursor) : Parsed Stmt c.remaining :=
  match c.kind with
  | .varWord => parseDefine c
  | .funWord =>
    have := c.remaining_advance_le
    (parseFunction c.advance).map (fun f => .function f.name f.parameters f.body) (by omega)
  | _ => parseStatement c
termination_by (c.remaining, 3)
decreasing_by all_goals first | decreasing_tactic | exact Prod.Lex.right' _ this (by decide)

/-- A statement. The branches of a conditional are statements, so no definition can be one. -/
def parseStatement (c : Cursor) : Parsed Stmt c.remaining :=
  have := c.remaining_advance_le
  match h : c.kind with
  | .printWord => (parseExprStmt .print c.advance).map id (by omega)
  | .ifWord =>
    (parseExpr c.advance).andThen fun condition d hd =>
      (parseStatement d).andThen fun thenBranch e he =>
        if e.kind = .elseWord then
          have := e.remaining_advance_le
          (parseStatement e.advance).map (.ifElse condition thenBranch ·) (by omega)
        else .ok (.ifThen condition thenBranch) e (by omega)
  | .forWord => .error (c.fault (.unsupportedLoop .forLoop))
  | .whileWord => .error (c.fault (.unsupportedLoop .whileLoop))
  | .returnWord => parseReturn c h
  | .leftBrace =>
    have := remaining_advance_lt (c := c) (by rw [h]; decide)
    (parseBlock c.advance).map .block (by omega)
  | _ => parseExprStmt .expr c
termination_by (c.remaining, 2)

/-- The statements of a block up to and with the closing brace. -/
def parseBlock (c : Cursor) : Parsed (List Stmt) c.remaining :=
  if h : c.kind = .rightBrace then .ok [] c.advance (remaining_advance_lt (by rw [h]; decide))
  else if c.kind = .endOfInput then .error (c.fault .unclosedBlock)
  else
    (parseDeclaration c).andThen fun s d hd =>
      (parseBlock d).map (s :: ·) (by omega)
termination_by (c.remaining, 4)

/-- A function from its name on: parameters, and a body that is a block or an equals sign and a value. -/
def parseFunction (c : Cursor) : Parsed FunctionDecl c.remaining :=
  (c.expectName .functionName).andThen fun name d hd =>
    (d.expect .openParameters).andThen fun _ e he =>
      (parseParameters e).andThen fun parameters f hf =>
        have := f.remaining_advance_le
        match f.kind with
        | .equal =>
          (parseExprStmt (fun value => .ret (some value) f.current.position) f.advance).map
            (fun body => ⟨name, parameters, [body]⟩) (by omega)
        | .leftBrace => (parseBlock f.advance).map (fun body => ⟨name, parameters, body⟩) (by omega)
        | _ => .error (f.fault .missingFunctionBody)
termination_by (c.remaining, 1)

end

/-- Whether a function body starts with a token of this kind. -/
def TokenKind.opensBody (k : TokenKind) : Bool :=
  k == .leftBrace || k == .equal

/-- Whether the kinds are those of parameters, the closing parenthesis and the start of a body. -/
def isParameterTail : List TokenKind → Bool
  | .identifier :: .comma :: rest => isParameterTail rest
  | .identifier :: .rightParen :: k :: _ => k.opensBody
  | _ => false

/-- Whether the kinds are those of a mapper: a name, parameters in parentheses and the start of a body. -/
def isMapperHeader : List TokenKind → Bool
  | .identifier :: .leftParen :: .rightParen :: k :: _ => k.opensBody
  | .identifier :: .leftParen :: rest => isParameterTail rest
  | _ => false

/-- What may stand at top level: beside what a block may hold, mappers and imports. -/
def parseTopLevel (c : Cursor) : Parsed Stmt c.remaining :=
  match c.kind with
  | .identifier =>
    if isMapperHeader (c.ahead.map Token.kind) then
      (parseFunction c).map (fun f => .mapper f.name f.parameters f.body) (Nat.le_refl _)
    else parseDeclaration c
  | .importWord => parseImport c
  | _ => parseDeclaration c

/-- The statements up to the end of input. -/
def parseProgram (c : Cursor) : Except ParseError Program :=
  if c.kind = .endOfInput then .ok []
  else
    match parseTopLevel c with
    | .ok s d _ => (parseProgram d).map (s :: ·)
    | .error e => .error e
termination_by c.remaining

/-- The template that a list of tokens spells. Tokens after an end of input are not read. -/
def parse (tokens : List Token) : Except ParseError Program :=
  parseProgram (.ofList tokens)

end QueryTemplate
