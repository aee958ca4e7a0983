import QueryTemplate.Proofs.Interpreter.Discipline
import QueryTemplate.Proofs.Tree.EndOfInput

/-!
# Mappers are recognised by their headers

Whether a mapper is ahead is decided by looking at the tokens, and the mapper is then read by passing them. The two go
by the same grammar: lookahead finds a header just where there is one (`isMapperHeader_iff_exists`), and reading a
function from there passes the header, takes the parameters from it and goes on with the body, so that nothing but the
body can be wrong (`parseFunction_of_header`). Where there is no header, no mapper is read (`parseTopLevel_other`).
-/

namespace QueryTemplate

open Parsed Cursor

/-! ## Lookahead -/

/-- The kinds of `n` names with commas between them. -/
def namesWithCommas (n : Nat) : List TokenKind := (List.replicate n .identifier).intersperse .comma

theorem namesWithCommas_succ (n : Nat) :
    namesWithCommas (n + 2) = .identifier :: .comma :: namesWithCommas (n + 1) := rfl

theorem isParameterTail_iff {ks : List TokenKind} : isParameterTail ks = true ↔
    ∃ n k rest, ks = namesWithCommas (n + 1) ++ .rightParen :: k :: rest ∧ k.opensBody = true := by
  constructor
  · intro h
    fun_induction isParameterTail ks with
    | case1 ks ih =>
      obtain ⟨n, k, rest, rfl, hk⟩ := ih h
      exact ⟨n + 1, k, rest, rfl, hk⟩
    | case2 k rest => exact ⟨0, k, rest, rfl, h⟩
    | case3 => cases h
  · rintro ⟨n, k, rest, rfl, hk⟩
    induction n with
    | zero => exact hk
    | succ n ih => rwa [namesWithCommas_succ, List.cons_append, List.cons_append, isParameterTail]

theorem isMapperHeader_iff {ks : List TokenKind} : isMapperHeader ks = true ↔
    ∃ n k rest, ks = .identifier :: .leftParen :: (namesWithCommas n ++ .rightParen :: k :: rest) ∧
      k.opensBody = true := by
  constructor
  · intro h
    unfold isMapperHeader at h
    split at h
    next k rest => exact ⟨0, k, rest, rfl, h⟩
    next rest _ =>
      obtain ⟨n, k, rest, rfl, hk⟩ := isParameterTail_iff.1 h
      exact ⟨n + 1, k, rest, rfl, hk⟩
    next => cases h
  · rintro ⟨n, k, rest, rfl, hk⟩
    cases n with
    | zero => exact hk
    | succ n =>
      have htail : isParameterTail (namesWithCommas (n + 1) ++ .rightParen :: k :: rest) = true :=
        isParameterTail_iff.2 ⟨n, k, rest, rfl, hk⟩
      -- lookahead asks for an empty list first, so it has to see that the list begins with a name
      cases n <;> exact htail

/-! ## What reading comes to -/

namespace Parsed

variable {α β : Type} {m n : Nat}

/-- A value with the cursor behind it, or a fault. -/
def outcome : Parsed α n → Except ParseError (α × Cursor)
  | ok a d _ => .ok (a, d)
  | error e => .error e

theorem outcome_map (p : Parsed α m) (f : α → β) (h : m ≤ n) :
    (p.map f h).outcome = p.outcome.map fun (a, d) => (f a, d) := by
  cases p <;> rfl

theorem Yields.outcome_andThen {p : Parsed α m} {a : α} {d : Cursor} (hp : p.Yields a d)
    (f : (a : α) → (d : Cursor) → d.remaining < m → Parsed β n) :
    (p.andThen f).outcome = (f a d hp.nearer).outcome := by
  obtain ⟨hd, rfl⟩ := hp
  rfl

end Parsed

/-! ## Headers -/

/-- A name token as an identifier. -/
def Token.ident (t : Token) : Ident := ⟨t.text, t.position⟩

/-- The names among tokens. -/
def namesAmong (ts : List Token) : List Ident := (ts.filter fun t => t.kind == .identifier).map Token.ident

theorem namesAmong_cons {t : Token} (ht : t.kind = .identifier) (ts : List Token) :
    namesAmong (t :: ts) = t.ident :: namesAmong ts := by
  simp [namesAmong, ht]

theorem namesAmong_comma {t : Token} (ht : t.kind = .comma) (ts : List Token) :
    namesAmong (t :: ts) = namesAmong ts := by
  simp [namesAmong, ht]

/-- The header of a mapper, with the token that begins the body: a name, and in parentheses any number of names with
commas between them and none behind the last. -/
structure MapperHeader where
  name : Token
  leftParen : Token
  /-- The names of the parameters and the commas between them. -/
  list : List Token
  rightParen : Token
  opener : Token
  name_kind : name.kind = .identifier
  leftParen_kind : leftParen.kind = .leftParen
  list_kinds : ∃ n, list.map Token.kind = namesWithCommas n
  rightParen_kind : rightParen.kind = .rightParen
  opener_kind : opener.kind = .leftBrace ∨ opener.kind = .equal

namespace MapperHeader

variable (h : MapperHeader)

def tokens : List Token := h.name :: h.leftParen :: (h.list ++ [h.rightParen, h.opener])

def parameters : List Ident := namesAmong h.list

/-- Behind the header, in front of the tokens `rest`. -/
def after (passed rest : List Token) : Cursor := ⟨h.tokens.reverse ++ passed, rest⟩

/-- Read the body behind the header. An equals sign begins a value, which the body returns. -/
def readBody (d : Cursor) : Except ParseError (List Stmt × Cursor) :=
  if h.opener.kind = .equal then
    (parseExprStmt (fun value => .ret (some value) h.opener.position) d).outcome.map fun (s, d) => ([s], d)
  else (parseBlock d).outcome

def declaration (body : List Stmt) : FunctionDecl := ⟨h.name.ident, h.parameters, body⟩

end MapperHeader

/-- Lookahead finds a header just where there is one. -/
theorem isMapperHeader_iff_exists {ts : List Token} : isMapperHeader (ts.map Token.kind) = true ↔
    ∃ (h : MapperHeader) (rest : List Token), ts = h.tokens ++ rest := by
  rw [isMapperHeader_iff]
  constructor
  · rintro ⟨n, k, ks, hkinds, hk⟩
    obtain ⟨name, _, rfl, hname, hkinds⟩ := List.map_eq_cons_iff.1 hkinds
    obtain ⟨leftParen, _, rfl, hleftParen, hkinds⟩ := List.map_eq_cons_iff.1 hkinds
    obtain ⟨list, _, rfl, hlist, hkinds⟩ := List.map_eq_append_iff.1 hkinds
    obtain ⟨rightParen, _, rfl, hrightParen, hkinds⟩ := List.map_eq_cons_iff.1 hkinds
    obtain ⟨opener, rest, rfl, rfl, -⟩ := List.map_eq_cons_iff.1 hkinds
    have hopener : opener.kind = .leftBrace ∨ opener.kind = .equal := by
      simpa [TokenKind.opensBody] using hk
    refine ⟨⟨name, leftParen, list, rightParen, opener, hname, hleftParen, ⟨n, hlist⟩, hrightParen, hopener⟩, rest, ?_⟩
    simp [MapperHeader.tokens]
  · rintro ⟨h, rest, rfl⟩
    obtain ⟨n, hlist⟩ := h.list_kinds
    refine ⟨n, h.opener.kind, rest.map Token.kind, ?_, ?_⟩
    · simp [MapperHeader.tokens, h.name_kind, h.leftParen_kind, h.rightParen_kind, hlist]
    · obtain hk | hk := h.opener_kind
      · rw [hk]
        rfl
      · rw [hk]
        rfl

/-! ## Reading from a header -/

theorem Cursor.advance_of_kind {t : Token} {k : TokenKind} (hk : t.kind = k) (passed ts : List Token)
    (hne : k ≠ .endOfInput := by decide) : advance ⟨passed, t :: ts⟩ = ⟨t :: passed, ts⟩ :=
  advance_cons passed ts (hk ▸ hne)

theorem parseParameterList_of_kinds {n : Nat} {list : List Token}
    (hlist : list.map Token.kind = namesWithCommas (n + 1)) {rightParen : Token}
    (hrightParen : rightParen.kind = .rightParen) (passed rest : List Token) :
    (parseParameterList ⟨passed, list ++ rightParen :: rest⟩).Yields (namesAmong list)
      ⟨rightParen :: (list.reverse ++ passed), rest⟩ := by
  induction n generalizing list passed with
  | zero =>
    obtain ⟨t, ts, rfl, ht, hts⟩ := List.map_eq_cons_iff.1 hlist
    obtain rfl := List.map_eq_nil_iff.1 hts
    refine parseParameterList_yields.2 ⟨ht, .inr ?_⟩
    rw [List.singleton_append, advance_of_kind ht, advance_of_kind hrightParen]
    exact ⟨hrightParen, namesAmong_cons ht [], rfl⟩
  | succ n ih =>
    obtain ⟨t, _, rfl, ht, hts⟩ := List.map_eq_cons_iff.1 hlist
    obtain ⟨comma, list, rfl, hcomma, hlist⟩ := List.map_eq_cons_iff.1 hts
    have hrest := ih hlist (comma :: t :: passed)
    rw [← List.reverseAux_eq] at hrest
    refine parseParameterList_yields.2 ⟨ht, .inl ?_⟩
    rw [List.cons_append, List.cons_append, advance_of_kind ht, advance_of_kind hcomma, namesAmong_cons ht,
      namesAmong_comma hcomma, ← List.reverseAux_eq]
    exact ⟨hcomma, namesAmong list, hrest, rfl⟩

namespace MapperHeader

variable (h : MapperHeader) (passed rest : List Token)

theorem tokens_append : h.tokens ++ rest = h.name :: h.leftParen :: (h.list ++ h.rightParen :: h.opener :: rest) := by
  simp [tokens]

theorem after_eq : h.after passed rest =
    ⟨h.opener :: h.rightParen :: (h.list.reverse ++ h.leftParen :: h.name :: passed), rest⟩ := by
  simp [after, tokens]

/-- In front of the token that begins the body. -/
def beforeBody : Cursor := ⟨h.rightParen :: (h.list.reverse ++ h.leftParen :: h.name :: passed), h.opener :: rest⟩

theorem advance_beforeBody : (h.beforeBody passed rest).advance = h.after passed rest := by
  rw [after_eq]
  obtain hk | hk := h.opener_kind
  · exact advance_of_kind hk ..
  · exact advance_of_kind hk ..

theorem parameters_yields : (parseParameters ⟨passed, h.list ++ h.rightParen :: rest⟩).Yields h.parameters
    ⟨h.rightParen :: (h.list.reverse ++ passed), rest⟩ := by
  obtain ⟨n, hlist⟩ := h.list_kinds
  rw [parseParameters_yields, parameters]
  cases n with
  | zero =>
    rw [List.map_eq_nil_iff.1 hlist]
    exact .inl ⟨h.rightParen_kind, rfl, (advance_of_kind h.rightParen_kind passed rest).symm⟩
  | succ n =>
    have hyields := parseParameterList_of_kinds hlist h.rightParen_kind passed rest
    have hkind := (parseParameterList_yields.1 hyields).1
    exact .inr ⟨by rw [hkind]; decide, hyields⟩

end MapperHeader

/-- Reading a function passes the header, takes the names from it and goes on with the body. -/
theorem parseFunction_of_header (h : MapperHeader) (passed rest : List Token) :
    (parseFunction ⟨passed, h.tokens ++ rest⟩).outcome =
      (h.readBody (h.after passed rest)).map fun (body, d) => (h.declaration body, d) := by
  have hname : (expectName .functionName ⟨passed, h.tokens ++ rest⟩).Yields h.name.ident
      ⟨h.name :: passed, h.leftParen :: (h.list ++ h.rightParen :: h.opener :: rest)⟩ := by
    rw [h.tokens_append]
    exact expectName_yields.2 ⟨h.name_kind, rfl, (advance_of_kind h.name_kind ..).symm⟩
  have hparen : (expect .openParameters
      ⟨h.name :: passed, h.leftParen :: (h.list ++ h.rightParen :: h.opener :: rest)⟩).Yields ()
      ⟨h.leftParen :: h.name :: passed, h.list ++ h.rightParen :: h.opener :: rest⟩ :=
    expect_yields.2 ⟨h.leftParen_kind, (advance_of_kind h.leftParen_kind ..).symm⟩
  have hparameters : (parseParameters
      ⟨h.leftParen :: h.name :: passed, h.list ++ h.rightParen :: h.opener :: rest⟩).Yields h.parameters
      (h.beforeBody passed rest) := h.parameters_yields ..
  rw [parseFunction, hname.outcome_andThen, hparen.outcome_andThen, hparameters.outcome_andThen, MapperHeader.readBody]
  obtain hk | hk := h.opener_kind
  · have hkind : (h.beforeBody passed rest).kind = .leftBrace := hk
    have hvalue : h.opener.kind ≠ .equal := by rw [hk]; decide
    simp only [hkind]
    rw [outcome_map, h.advance_beforeBody, if_neg hvalue]
    rfl
  · have hkind : (h.beforeBody passed rest).kind = .equal := hk
    -- the statement that returns the value has the place of the equals sign, which is the token ahead of the cursor
    have hposition : (h.beforeBody passed rest).current.position = h.opener.position := rfl
    simp only [hkind, hposition]
    rw [outcome_map, h.advance_beforeBody, if_pos hk]
    generalize (parseExprStmt _ (h.after passed rest)).outcome = r
    cases r <;> rfl

/-! ## Recognition -/

namespace Stmt

mutual

/-- If a statement may stand in a block, so may all statements in it. -/
theorem isLocal_of_mem_parts {s t : Stmt} (h : s.Shaped) (hs : s.isLocal = true) (ht : t ∈ s.parts) :
    t.isLocal = true := by
  match s with
  | .expr _ | .define .. | .print _ | .ret .. | .importType .. =>
    simp only [parts, List.mem_singleton] at ht
    exact ht ▸ hs
  | .ifThen condition thenBranch =>
    simp only [Shaped] at h
    simp only [parts, List.mem_cons] at ht
    rcases ht with rfl | ht
    · exact hs
    · exact isLocal_of_mem_parts h.2 (isLocal_of_isPlain h.1) ht
  | .ifElse condition thenBranch elseBranch =>
    simp only [Shaped] at h
    simp only [parts, List.cons_append, List.mem_cons, List.mem_append] at ht
    rcases ht with rfl | ht | ht
    · exact hs
    · exact isLocal_of_mem_parts h.1.2.2 (isLocal_of_isPlain h.1.1) ht
    · exact isLocal_of_mem_parts h.2.2 (isLocal_of_isPlain h.2.1) ht
  | .block body | .function _ _ body | .mapper _ _ body =>
    simp only [Shaped] at h
    simp only [parts, List.mem_cons] at ht
    rcases ht with rfl | ht
    · exact hs
    · exact isLocal_of_mem_partsOfAll h ht

theorem isLocal_of_mem_partsOfAll {ss : List Stmt} {t : Stmt} (h : AllShaped ss) (ht : t ∈ partsOfAll ss) :
    t.isLocal = true := by
  match ss with
  | [] => cases ht
  | s :: ss =>
    simp only [AllShaped] at h
    simp only [partsOfAll, List.mem_append] at ht
    rcases ht with ht | ht
    · exact isLocal_of_mem_parts h.1.2 h.1.1 ht
    · exact isLocal_of_mem_partsOfAll h.2 ht

end

end Stmt

theorem parseTopLevel_of_header {c : Cursor} (hk : c.kind = .identifier)
    (hheader : isMapperHeader (c.ahead.map Token.kind) = true) : (parseTopLevel c).outcome =
      (parseFunction c).outcome.map fun (f, d) => (.mapper f.name f.parameters f.body, d) := by
  rw [parseTopLevel]
  simp only [hk]
  rw [if_pos hheader, outcome_map]

theorem parseTopLevel_other {c d : Cursor} {s : Stmt} (hheader : isMapperHeader (c.ahead.map Token.kind) = false)
    (h : (parseTopLevel c).Yields s d) :
    ∀ t ∈ s.parts, ∀ name parameters body, t ≠ .mapper name parameters body := by
  rintro t ht name parameters body rfl
  rcases parseTopLevel_yields.1 h with ⟨⟨-, hfound⟩, -⟩ | ⟨-, himport⟩ | ⟨-, -, hdeclaration⟩
  · rw [hheader] at hfound
    cases hfound
  · obtain ⟨path, last, x, -, ⟨-, -, rfl, -⟩ | ⟨-, rfl, -⟩⟩ := parseImport_yields.1 himport
    · simp [Stmt.parts] at ht
    · simp [Stmt.parts] at ht
  · obtain ⟨hlocal, hshaped⟩ := parseDeclaration_shaped hdeclaration
    cases Stmt.isLocal_of_mem_parts hshaped hlocal ht

/-- How lookahead and the readers agree on what is a mapper. -/
structure Cursor.RecognisesMappers (c : Cursor) : Prop where
  /-- Lookahead finds a header just where there is one. -/
  header : isMapperHeader (c.ahead.map Token.kind) = true ↔
    ∃ (h : MapperHeader) (rest : List Token), c.ahead = h.tokens ++ rest
  /-- There a function is read, with the parameters of the header, or what is wrong with its body is found. -/
  function : ∀ (h : MapperHeader) (rest : List Token), c.ahead = h.tokens ++ rest →
    (parseFunction c).outcome =
      (h.readBody (h.after c.passed rest)).map fun (body, d) => (h.declaration body, d)
  /-- At top level it is a mapper. -/
  mapper : ∀ (h : MapperHeader) (rest : List Token), c.ahead = h.tokens ++ rest →
    (parseTopLevel c).outcome = (h.readBody (h.after c.passed rest)).map fun (body, d) =>
      (.mapper h.name.ident h.parameters body, d)
  /-- Elsewhere no mapper is read, nor a statement with a mapper in it. -/
  other : isMapperHeader (c.ahead.map Token.kind) = false → ∀ s d, (parseTopLevel c).Yields s d →
    ∀ t ∈ s.parts, ∀ name parameters body, t ≠ .mapper name parameters body

theorem Cursor.recognisesMappers (c : Cursor) : c.RecognisesMappers := by
  have function : ∀ (h : MapperHeader) (rest : List Token), c.ahead = h.tokens ++ rest → (parseFunction c).outcome =
      (h.readBody (h.after c.passed rest)).map fun (body, d) => (h.declaration body, d) := by
    intro h rest hahead
    obtain ⟨passed, ahead⟩ := c
    obtain rfl : ahead = h.tokens ++ rest := hahead
    exact parseFunction_of_header h passed rest
  refine ⟨isMapperHeader_iff_exists, function, fun h rest hahead => ?_, fun hheader _ _ => parseTopLevel_other hheader⟩
  have hk : c.kind = .identifier := by
    rw [Cursor.kind, Cursor.current, hahead]
    exact h.name_kind
  rw [parseTopLevel_of_header hk (isMapperHeader_iff_exists.2 ⟨h, rest, hahead⟩), function h rest hahead]
  cases h.readBody (h.after c.passed rest) <;> rfl

/-- The mapper `m(a, b)` with an empty body. -/
theorem mapper_of_two_parameters :
    let name (text : String) : Token := ⟨.identifier, .text text, .nowhere⟩
    let mark (kind : TokenKind) : Token := ⟨kind, .empty, .nowhere⟩
    ∃ d, (parseTopLevel (.ofList [name "m", mark .leftParen, name "a", mark .comma, name "b", mark .rightParen,
      mark .leftBrace, mark .rightBrace])).outcome =
        .ok (.mapper ⟨"m", .nowhere⟩ [⟨"a", .nowhere⟩, ⟨"b", .nowhere⟩] [], d) := by
  intro name mark
  let h : MapperHeader := ⟨name "m", mark .leftParen, [name "a", mark .comma, name "b"], mark .rightParen,
    mark .leftBrace, rfl, rfl, ⟨2, rfl⟩, rfl, .inl rfl⟩
  have hbody : h.readBody (h.after [] [mark .rightBrace]) =
      .ok ([], (h.after [] [mark .rightBrace]).advance) := by
    rw [MapperHeader.readBody, if_neg nofun, parseBlock]
    rfl
  exact ⟨_, ((Cursor.recognisesMappers _).mapper h [mark .rightBrace] rfl).trans (congrArg _ hbody)⟩

end QueryTemplate
