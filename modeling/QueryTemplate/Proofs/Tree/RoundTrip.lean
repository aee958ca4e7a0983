import QueryTemplate.Proofs.Tree.Writing

/-!
# Reading canonical text

The canonical text of a program is read as its canonical tree, up to places (`parseProgram_complete`), and so compiles
to a program that is the first one but for places, groups and braces, and that has the same canonical text. What has to
hold of the program for that holds of every program that a text compiles to (`writable_of_compile`).
-/

namespace QueryTemplate

open Parsed Cursor TokenKind

/-! ## Parts of statements -/

section Parts

variable {c d : Cursor}

theorem Cursor.Reads.current_kind {y : Symbol} {ss : List Symbol} (h : c.Reads (y :: ss) d) : c.kind = y.1 := by
  obtain ⟨ts, ha, -, hm⟩ := h
  obtain ⟨t, us, rfl, ht, rfl⟩ := List.map_eq_cons_iff.1 hm
  rw [kind, current, ha, ← ht]
  rfl

theorem skipSemicolon_of_reads (h : c.Reads [semicolon.bare] d) : c.skipSemicolon = d := by
  obtain ⟨-, hk, hr⟩ := h.cons_inv (by decide)
  obtain rfl := hr.nil_inv
  rw [skipSemicolon, if_pos hk]

/-- An expression before a semicolon. -/
theorem parseClosed_complete {e : Expr} (hw : e.WellRanked) (h : c.Reads (e.symbols ++ [semicolon.bare]) d) :
    ∃ e' x, e'.unplaced = e.unplaced ∧ (parseExpr c).Yields e' x ∧ d = x.skipSemicolon := by
  obtain ⟨x, he, hx⟩ := h.split
  obtain ⟨e', hu, hy⟩ := parseExpr_complete e hw (by rw [hx.current_kind]; rfl) he
  exact ⟨e', x, hu, hy, (skipSemicolon_of_reads hx).symm⟩

theorem ident_unplaced {name : Ident} (h : c.current.symbol = name.symbol) : c.ident.unplaced = name.unplaced :=
  congrArg (Ident.mk · _) (unplaced_ident h)

theorem parseParameterList_complete {p : Ident} {ps : List Ident} (h : c.Reads (parameterListSymbols p ps) d) :
    ∃ qs, qs.map Ident.unplaced = (p :: ps).map Ident.unplaced ∧ (parseParameterList c).Yields qs d := by
  induction ps generalizing p c with
  | nil =>
    obtain ⟨hs, hk, hr⟩ := h.cons_inv (by decide)
    obtain ⟨-, hp, hr⟩ := hr.cons_inv (by decide)
    obtain rfl := hr.nil_inv
    refine ⟨[c.ident], by simp only [List.map_cons, List.map_nil, ident_unplaced hs], ?_⟩
    exact parseParameterList_yields.2 ⟨hk, .inr ⟨hp, rfl, rfl⟩⟩
  | cons q ps ih =>
    obtain ⟨hs, hk, hr⟩ := h.cons_inv (by decide)
    obtain ⟨-, hcomma, hr⟩ := hr.cons_inv (by decide)
    obtain ⟨qs, hu, hy⟩ := ih hr
    refine ⟨c.ident :: qs, by rw [List.map_cons, hu, ident_unplaced hs]; rfl, ?_⟩
    exact parseParameterList_yields.2 ⟨hk, .inl ⟨hcomma, qs, hy, rfl⟩⟩

theorem parseParameters_complete {ps : List Ident} (h : c.Reads (parameterSymbols ps) d) :
    ∃ qs, qs.map Ident.unplaced = ps.map Ident.unplaced ∧ (parseParameters c).Yields qs d := by
  cases ps with
  | nil =>
    obtain ⟨-, hk, hr⟩ := h.cons_inv (by decide)
    exact ⟨[], rfl, parseParameters_yields.2 (.inl ⟨hk, rfl, hr.nil_inv⟩)⟩
  | cons p ps =>
    have hk : c.kind = identifier := by cases ps <;> exact h.current_kind
    obtain ⟨qs, hu, hy⟩ := parseParameterList_complete h
    exact ⟨qs, hu, parseParameters_yields.2 (.inr ⟨by rw [hk]; decide, hy⟩)⟩

/-- A path is read from its names, and the last of them is the local name. -/
theorem parsePath_complete {c : Cursor} (role : NameRole) {names : List (List Char)} (hne : names ≠ [])
    (h : c.Reads (pathSymbols names) d) (hd : d.kind ≠ dot) :
    ∃ last, some last.name.toList = names.getLast? ∧
      (parsePath role c).Yields (String.ofList (['.'].intercalate names), last) d := by
  match names with
  | [] => exact absurd rfl hne
  | [cs] =>
    obtain ⟨hs, hk, hr⟩ := h.cons_inv (by decide)
    obtain rfl := hr.nil_inv
    have hname : c.ident.name = String.ofList cs := unplaced_ident (i := ⟨String.ofList cs, .nowhere⟩) hs
    refine ⟨c.ident, by simp [hname], parsePath_yields.2 ⟨hk, .inr ⟨hd, ?_, rfl, rfl⟩⟩⟩
    rw [hname, List.intercalate_singleton]
  | cs :: cs' :: names =>
    simp only [pathSymbols, List.map_cons, List.intersperse_cons_cons] at h
    obtain ⟨hs, hk, hr⟩ := h.cons_inv (by decide)
    obtain ⟨-, hdot, hr⟩ := hr.cons_inv (by decide)
    obtain ⟨last, hlast, hy⟩ := parsePath_complete .typePathSegment (List.cons_ne_nil cs' names) hr hd
    have hname : c.ident.name = String.ofList cs := unplaced_ident (i := ⟨String.ofList cs, .nowhere⟩) hs
    refine ⟨last, by rw [hlast]; rfl, parsePath_yields.2 ⟨hk, .inl ⟨hdot, _, hy, ?_⟩⟩⟩
    rw [hname, List.intercalate_cons_cons, String.ofList_append, String.ofList_append]
termination_by names

end Parts

/-! ## Statements -/

namespace Stmt

/-- Whether a statement can be written down and read back: it has the shape that the grammar gives it, its expressions
keep to the precedence of the operators, and its symbols are read from the lexemes that they are written as. -/
def Writable (s : Stmt) : Prop := s.Shaped ∧ s.WellRanked ∧ ∀ y ∈ s.symbols, Symbol.Written y

/-- The same for the statements of a block. -/
def AllWritable (ss : List Stmt) : Prop := AllShaped ss ∧ AllWellRanked ss ∧ ∀ y ∈ symbolsOfAll ss, Symbol.Written y

theorem allWritable_cons {s : Stmt} {ss : List Stmt} :
    AllWritable (s :: ss) ↔ (s.isLocal = true ∧ s.Writable) ∧ AllWritable ss := by
  simp only [AllWritable, Writable, AllShaped, AllWellRanked, symbolsOfAll, List.forall_mem_append]
  tauto

/-- A statement that is read from its symbols, up to places. -/
def ReadAs (s : Stmt) (read : (c : Cursor) → Parsed Stmt c.remaining) : Prop :=
  ∀ ⦃c d : Cursor⦄, c.Reads s.symbols d → (s.endsOpen = true → d.kind ≠ elseWord) →
    ∃ s', s'.unplaced = s.unplaced ∧ (read c).Yields s' d

theorem endsOpen_canonical : ∀ s : Stmt, s.canonical.endsOpen = s.endsOpen
  | ifElse _ _ elseBranch => by
    simp only [canonical, endsOpen]
    exact endsOpen_canonical elseBranch
  | ret (some _) _ | ret none _ | expr _ | define .. | print _ | ifThen .. | block _ | function .. | mapper ..
  | importType .. => by simp only [canonical, endsOpen]

theorem endsOpen_blockIf {s : Stmt} {needed : Bool} (h : s.endsOpen = false) :
    (s.canonical.blockIf needed).endsOpen = false := by
  cases needed with
  | true => rfl
  | false => exact (endsOpen_canonical s).trans h

/-- After a statement of a block there is a statement or the closing brace. -/
theorem symbols_after (ss : List Stmt) :
    ∃ y ys, symbolsOfAll ss ++ [rightBrace.bare] = y :: ys ∧ y.1 ≠ elseWord := by
  cases ss with
  | nil => exact ⟨_, _, rfl, nofun⟩
  | cons s ss =>
    obtain ⟨k, p, ys, hs, hk⟩ := s.symbols_eq_cons
    exact ⟨(k, p), ys ++ symbolsOfAll ss ++ [rightBrace.bare], by simp only [symbolsOfAll, hs, List.cons_append],
      (ne_of_startsStmt hk).1⟩

end Stmt

section Statements

open Stmt

variable {c d : Cursor}

theorem kind_of_parseStatement {s : Stmt} (h : (parseStatement c).Yields s d) :
    c.kind ≠ varWord ∧ c.kind ≠ funWord ∧ c.kind ≠ importWord ∧ c.kind ≠ rightBrace ∧ c.kind ≠ endOfInput := by
  have hk : c.kind.startsExpr = true ∨ c.kind = printWord ∨ c.kind = ifWord ∨ c.kind = returnWord ∨
      c.kind = leftBrace := by
    rcases parseStatement_yields.1 h with ⟨hk, -⟩ | ⟨hk, -⟩ | ⟨hk, -⟩ | ⟨hk, -⟩ | h
    · exact .inr (.inl hk)
    · exact .inr (.inr (.inl hk))
    · exact .inr (.inr (.inr (.inl hk)))
    · exact .inr (.inr (.inr (.inr hk)))
    · obtain ⟨e, x, he, -⟩ := parseExprStmt_yields.1 h
      exact .inl (startsExpr_of_yields he)
  refine ⟨?_, ?_, ?_, ?_, ?_⟩ <;> (intro h; rw [h] at hk; revert hk; decide)

theorem parseDeclaration_of_parseStatement {s : Stmt} (h : (parseStatement c).Yields s d) :
    (parseDeclaration c).Yields s d := by
  obtain ⟨hv, hf, -⟩ := kind_of_parseStatement h
  exact parseDeclaration_yields.2 (.inr (.inr ⟨hv, hf, h⟩))

/-- A branch is read as it is written, in braces of its own or without. -/
theorem blockIf_readAs {s : Stmt} {needed : Bool} (h : s.ReadAs parseStatement) :
    (s.blockIf needed).ReadAs parseStatement := by
  cases needed with
  | false => exact h
  | true =>
    intro c d hr _
    simp only [blockIf, ↓reduceIte, symbols, symbolsOfAll, List.append_nil] at hr
    obtain ⟨-, hk, hr⟩ := hr.cons_inv (by decide)
    obtain ⟨x, hs, hbrace⟩ := hr.split
    obtain ⟨-, hk', hr'⟩ := hbrace.cons_inv (by decide)
    obtain rfl := hr'.nil_inv
    obtain ⟨s', hu, hy⟩ := h hs fun _ => by rw [hk']; decide
    obtain ⟨-, -, -, hb, he⟩ := kind_of_parseStatement hy
    have hblock : (parseBlock c.advance).Yields [s'] x.advance :=
      parseBlock_yields.2 (.inr ⟨hb, he, s', x, [], parseDeclaration_of_parseStatement hy,
        parseBlock_yields.2 (.inl ⟨hk', rfl, rfl⟩), rfl⟩)
    refine ⟨.block [s'], by simp only [unplaced, unplacedAll, hu, blockIf, ↓reduceIte], ?_⟩
    exact parseStatement_yields.2 (.inr (.inr (.inr (.inl ⟨hk, [s'], hblock, rfl⟩))))

theorem exprStmt_readAs (make : Expr → Stmt) {e : Expr} (hw : e.WellRanked)
    (hr : c.Reads (e.canonical.symbols ++ [semicolon.bare]) d) :
    ∃ e', e'.unplaced = e.canonical.unplaced ∧ (parseExprStmt make c).Yields (make e') d := by
  obtain ⟨e', x, hu, hy, hd⟩ := parseClosed_complete (Expr.wellRanked_canonical hw) hr
  exact ⟨e', hu, parseExprStmt_yields.2 ⟨e', x, hy, rfl, hd⟩⟩

theorem define_readAs {name : Ident} {value : Expr} (hw : value.WellRanked) :
    (define name value).canonical.ReadAs parseDeclaration := by
  intro c d hr _
  simp only [canonical, symbols] at hr
  obtain ⟨-, hk, hr⟩ := hr.cons_inv (by decide)
  obtain ⟨hs, hk', hr⟩ := hr.cons_inv (by decide)
  obtain ⟨-, he, hr⟩ := hr.cons_inv (by decide)
  obtain ⟨e', x, hu, hy, hd⟩ := parseClosed_complete (Expr.wellRanked_canonical hw) hr
  refine ⟨.define c.advance.ident e', by simp only [canonical, unplaced, ident_unplaced hs, hu], ?_⟩
  exact parseDeclaration_yields.2 (.inl ⟨hk, parseDefine_yields.2 ⟨hk', .inl ⟨he, e', x, hy, rfl, hd⟩⟩⟩)

mutual

theorem parseStatement_complete (s : Stmt) (hp : s.isPlain = true) (h : s.Writable) :
    s.canonical.ReadAs parseStatement := by
  intro c d hr ho
  simp only [Writable] at h
  match s with
  | expr e =>
    simp only [WellRanked] at h
    simp only [canonical, symbols] at hr
    obtain ⟨e', hu, hy⟩ := exprStmt_readAs .expr h.2.1 hr
    refine ⟨.expr e', by simp only [canonical, unplaced, hu], ?_⟩
    exact parseStatement_yields.2 (.inr (.inr (.inr (.inr hy))))
  | print e =>
    simp only [WellRanked] at h
    simp only [canonical, symbols] at hr
    obtain ⟨-, hk, hr⟩ := hr.cons_inv (by decide)
    obtain ⟨e', hu, hy⟩ := exprStmt_readAs .print h.2.1 hr
    exact ⟨.print e', by simp only [canonical, unplaced, hu], parseStatement_yields.2 (.inl ⟨hk, hy⟩)⟩
  | ret (some value) p =>
    simp only [WellRanked] at h
    simp only [canonical, symbols] at hr
    obtain ⟨-, hk, hr⟩ := hr.cons_inv (by decide)
    obtain ⟨e', x, hu, hy, hd⟩ := parseClosed_complete (Expr.wellRanked_canonical h.2.1) hr
    refine ⟨.ret (some e') c.current.position, by simp only [canonical, unplaced, hu], ?_⟩
    exact parseStatement_yields.2 (.inr (.inr (.inl ⟨hk, .inr ⟨e', x, hy, rfl, hd⟩⟩)))
  | ret none p =>
    simp only [canonical, symbols] at hr
    obtain ⟨-, hk, hr⟩ := hr.cons_inv (by decide)
    refine ⟨.ret none c.current.position, by simp only [canonical, unplaced], ?_⟩
    exact parseStatement_yields.2
      (.inr (.inr (.inl ⟨hk, .inl ⟨.inr (.inl hr.current_kind), rfl, (skipSemicolon_of_reads hr).symm⟩⟩)))
  | block body =>
    simp only [Shaped, WellRanked, symbols, List.forall_mem_cons, List.forall_mem_append] at h
    simp only [canonical, symbols] at hr
    obtain ⟨-, hk, hr⟩ := hr.cons_inv (by decide)
    obtain ⟨ss, hu, hy⟩ := parseBlock_complete body ⟨h.1, h.2.1, h.2.2.2.1⟩ hr
    refine ⟨.block ss, by simp only [canonical, unplaced, hu], ?_⟩
    exact parseStatement_yields.2 (.inr (.inr (.inr (.inl ⟨hk, ss, hy, rfl⟩))))
  | ifThen condition thenBranch =>
    simp only [Shaped, WellRanked, symbols, List.forall_mem_cons, List.forall_mem_append] at h
    obtain ⟨⟨hpt, hst⟩, ⟨hwc, hwt⟩, -, -, hyt⟩ := h
    simp only [canonical, symbols] at hr ho
    obtain ⟨-, hk, hr⟩ := hr.cons_inv (by decide)
    obtain ⟨x, hc, ht⟩ := hr.split
    obtain ⟨y, ys, hys, hky⟩ := symbols_blockIf_eq_cons hpt hyt
    have hkind : x.kind.continuesExpr = false := by
      rw [hys] at ht
      rwa [ht.current_kind]
    obtain ⟨condition', huc, hxc⟩ := parseExpr_complete _ (Expr.wellRanked_canonical hwc) hkind hc
    have helse : d.kind ≠ elseWord := ho rfl
    obtain ⟨then', hut, hxt⟩ :=
      blockIf_readAs (parseStatement_complete thenBranch hpt ⟨hst, hwt, hyt⟩) ht fun _ => helse
    refine ⟨.ifThen condition' then', by simp only [canonical, unplaced, huc, hut], ?_⟩
    exact parseStatement_yields.2
      (.inr (.inl ⟨hk, condition', x, then', d, hxc, hxt, .inr ⟨helse, rfl, rfl⟩⟩))
  | ifElse condition thenBranch elseBranch =>
    simp only [Shaped, WellRanked, symbols, List.forall_mem_cons, List.forall_mem_append] at h
    obtain ⟨⟨⟨hpt, hot, hst⟩, hpe, hse⟩, ⟨hwc, hwt, hwe⟩, -, -, hyt, -, hye⟩ := h
    simp only [canonical, symbols] at hr ho
    obtain ⟨-, hk, hr⟩ := hr.cons_inv (by decide)
    obtain ⟨x, hc, hr⟩ := hr.split
    obtain ⟨y, ht, hr⟩ := hr.split
    obtain ⟨-, hkelse, he⟩ := hr.cons_inv (by decide)
    obtain ⟨z, zs, hzs, hkz⟩ := symbols_blockIf_eq_cons hpt hyt
    have hkind : x.kind.continuesExpr = false := by
      rw [hzs] at ht
      rwa [ht.current_kind]
    obtain ⟨condition', huc, hxc⟩ := parseExpr_complete _ (Expr.wellRanked_canonical hwc) hkind hc
    obtain ⟨then', hut, hxt⟩ :=
      blockIf_readAs (parseStatement_complete thenBranch hpt ⟨hst, hwt, hyt⟩) ht fun hopen => by
        rw [endsOpen_blockIf hot] at hopen
        cases hopen
    obtain ⟨else', hue, hxe⟩ := parseStatement_complete elseBranch hpe ⟨hse, hwe, hye⟩ he ho
    refine ⟨.ifElse condition' then' else', by simp only [canonical, unplaced, huc, hut, hue], ?_⟩
    exact parseStatement_yields.2
      (.inr (.inl ⟨hk, condition', x, then', y, hxc, hxt, .inl ⟨hkelse, else', hxe, rfl⟩⟩))
termination_by (sizeOf s, 0)

theorem parseDeclaration_complete (s : Stmt) (hl : s.isLocal = true) (h : s.Writable) :
    s.canonical.ReadAs parseDeclaration := by
  match s with
  | define name value =>
    simp only [Writable, WellRanked] at h
    exact define_readAs h.2.1
  | function name parameters body =>
    intro c d hr _
    simp only [Writable, Shaped, WellRanked, symbols, List.forall_mem_cons, List.forall_mem_append] at h
    simp only [canonical, symbols] at hr
    obtain ⟨-, hk, hr⟩ := hr.cons_inv (by decide)
    obtain ⟨f, hn, hp, hb, hy⟩ := parseFunction_complete body ⟨h.1, h.2.1, h.2.2.2.2.2.2.2.1⟩ hr
    refine ⟨.function f.name f.parameters f.body, by simp only [canonical, unplaced, hn, hp, hb], ?_⟩
    exact parseDeclaration_yields.2 (.inr (.inl ⟨hk, f, hy, rfl⟩))
  | expr _ | print _ | ret .. | block _ | ifThen .. | ifElse .. =>
    intro c d hr ho
    obtain ⟨s', hu, hy⟩ := parseStatement_complete _ rfl h hr ho
    exact ⟨s', hu, parseDeclaration_of_parseStatement hy⟩
termination_by (sizeOf s, 1)

theorem parseBlock_complete (ss : List Stmt) (h : AllWritable ss) {c d : Cursor}
    (hr : c.Reads (symbolsOfAll (canonicalAll ss) ++ [rightBrace.bare]) d) :
    ∃ ss', unplacedAll ss' = unplacedAll (canonicalAll ss) ∧ (parseBlock c).Yields ss' d := by
  match ss with
  | [] =>
    obtain ⟨-, hk, hr⟩ := hr.cons_inv (by decide)
    exact ⟨[], rfl, parseBlock_yields.2 (.inl ⟨hk, rfl, hr.nil_inv⟩)⟩
  | s :: ss =>
    obtain ⟨⟨hl, hs⟩, hss⟩ := allWritable_cons.1 h
    simp only [canonicalAll, symbolsOfAll, List.append_assoc] at hr
    obtain ⟨k, p, ys, hys, hk⟩ := s.canonical.symbols_eq_cons
    obtain ⟨-, hbrace, hend⟩ := ne_of_startsStmt hk
    have hkind : c.kind = k := by
      rw [hys] at hr
      exact hr.current_kind
    obtain ⟨x, hsx, hr⟩ := hr.split
    obtain ⟨z, zs, hzs, hz⟩ := symbols_after (canonicalAll ss)
    have helse : x.kind ≠ elseWord := by
      rw [hzs] at hr
      rwa [hr.current_kind]
    obtain ⟨s', hu, hy⟩ := parseDeclaration_complete s hl hs hsx fun _ => helse
    obtain ⟨ss', hus, hys'⟩ := parseBlock_complete ss hss hr
    refine ⟨s' :: ss', by simp only [canonicalAll, unplacedAll, hu, hus], ?_⟩
    exact parseBlock_yields.2 (.inr ⟨by rw [hkind]; exact hbrace, by rw [hkind]; exact hend, s', x, ss', hy, hys', rfl⟩)
termination_by (sizeOf ss, 2)

theorem parseFunction_complete {name : Ident} {parameters : List Ident} (body : List Stmt) (h : AllWritable body)
    {c d : Cursor} (hr : c.Reads (name.symbol :: leftParen.bare ::
      (parameterSymbols parameters ++ leftBrace.bare :: (symbolsOfAll (canonicalAll body) ++ [rightBrace.bare]))) d) :
    ∃ f, f.name.unplaced = name.unplaced ∧ f.parameters.map Ident.unplaced = parameters.map Ident.unplaced ∧
      unplacedAll f.body = unplacedAll (canonicalAll body) ∧ (parseFunction c).Yields f d := by
  obtain ⟨hs, hk, hr⟩ := hr.cons_inv (by decide)
  obtain ⟨-, hparen, hr⟩ := hr.cons_inv (by decide)
  obtain ⟨x, hp, hr⟩ := hr.split
  obtain ⟨-, hbrace, hr⟩ := hr.cons_inv (by decide)
  obtain ⟨ps, hup, hxp⟩ := parseParameters_complete hp
  obtain ⟨ss, hub, hxb⟩ := parseBlock_complete body h hr
  refine ⟨⟨c.ident, ps, ss⟩, ident_unplaced hs, hup, hub, ?_⟩
  exact parseFunction_yields.2 ⟨hk, hparen, ps, x, hxp, .inr ⟨hbrace, ss, hxb, rfl⟩⟩
termination_by (sizeOf body, 3)

end

theorem kinds_ahead {ss : List Symbol} (h : c.Reads ss d) :
    c.ahead.map Token.kind = ss.map Prod.fst ++ d.ahead.map Token.kind := by
  obtain ⟨ts, ha, -, rfl⟩ := h
  rw [ha, List.map_append, List.map_map]
  rfl

theorem parseImport_complete {path : String} {localName : Ident}
    (hr : c.Reads (importWord.bare :: importSymbols path localName.name) d) :
    ∃ s', s'.unplaced = (importType path localName).unplaced ∧ (parseImport c).Yields s' d := by
  have hpath : String.ofList (['.'].intercalate (path.toList.splitOn '.')) = path := by
    rw [List.intercalate_splitOn, String.ofList_toList]
  obtain ⟨-, hk, hr⟩ := hr.cons_inv (by decide)
  obtain ⟨y, hr, hsemicolon⟩ := hr.split
  obtain ⟨x, hnames, hr⟩ := hr.split
  split at hr
  next he =>
    obtain rfl := hr.nil_inv
    have hky := hsemicolon.current_kind
    obtain ⟨last, hlast, hy⟩ :=
      parsePath_complete .typePath (List.splitOn_ne_nil _ _) hnames (by rw [hky]; nofun)
    rw [hpath] at hy
    have hname : last.name = localName.name := String.toList_inj.1 (Option.some.inj (hlast.trans he))
    refine ⟨.importType path last, by simp only [unplaced, Ident.unplaced, hname], ?_⟩
    exact parseImport_yields.2 ⟨path, last, y, hy,
      .inr ⟨fun h => by rw [hky] at h; exact absurd h.1 (by decide), rfl, (skipSemicolon_of_reads hsemicolon).symm⟩⟩
  next he =>
    obtain ⟨hs, hkx, hr⟩ := hr.cons_inv (by decide)
    obtain ⟨hs', hkx', hr⟩ := hr.cons_inv (by decide)
    obtain rfl := hr.nil_inv
    obtain ⟨last, -, hy⟩ :=
      parsePath_complete .typePath (List.splitOn_ne_nil _ _) hnames (by rw [hkx]; nofun)
    rw [hpath] at hy
    have has : x.current.payload = .text "as" := congrArg Prod.snd hs
    have hlocal : x.advance.ident.unplaced = localName.unplaced := ident_unplaced hs'
    refine ⟨.importType path x.advance.ident, by simp only [unplaced, hlocal], ?_⟩
    exact parseImport_yields.2 ⟨path, last, x, hy,
      .inl ⟨⟨hkx, by rw [has]; rfl⟩, hkx', rfl, (skipSemicolon_of_reads hsemicolon).symm⟩⟩

/-- What may stand in a block does not look like a mapper or an import. -/
theorem not_header {s : Stmt} (hl : s.isLocal = true) (hr : c.Reads s.canonical.symbols d) :
    ¬(c.kind = identifier ∧ isMapperHeader (c.ahead.map Token.kind) = true) ∧ c.kind ≠ importWord := by
  have other : c.kind ≠ identifier ∧ c.kind ≠ importWord →
      ¬(c.kind = identifier ∧ isMapperHeader (c.ahead.map Token.kind) = true) ∧ c.kind ≠ importWord :=
    fun h => ⟨fun h' => h.1 h'.1, h.2⟩
  cases s with
  | expr e =>
    have hheader := isMapperHeader_expr e.canonical (d.ahead.map Token.kind)
    simp only [canonical] at hr
    rw [← kinds_ahead hr] at hheader
    obtain ⟨⟨k, p⟩, ys, hs, hk⟩ := e.canonical.symbols_eq_cons
    simp only [symbols, hs] at hr
    refine ⟨fun h => by rw [hheader] at h; exact absurd h.2 (by decide), ?_⟩
    rw [hr.current_kind]
    rintro rfl
    cases hk
  | mapper | importType => cases hl
  | ret value =>
    apply other
    cases value <;>
      · simp only [canonical, symbols] at hr
        rw [hr.current_kind]
        exact ⟨nofun, nofun⟩
  | _ =>
    apply other
    simp only [canonical, symbols] at hr
    rw [hr.current_kind]
    exact ⟨nofun, nofun⟩

theorem parseTopLevel_complete {s : Stmt} (h : s.Writable) : s.canonical.ReadAs parseTopLevel := by
  cases hl : s.isLocal with
  | true =>
    intro c d hr ho
    obtain ⟨hh, hi⟩ := not_header hl hr
    obtain ⟨s', hu, hy⟩ := parseDeclaration_complete s hl h hr ho
    exact ⟨s', hu, parseTopLevel_yields.2 (.inr (.inr ⟨hh, hi, hy⟩))⟩
  | false =>
    intro c d hr _
    cases s with
    | mapper name parameters body =>
      simp only [Writable, Shaped, WellRanked, symbols, List.forall_mem_cons, List.forall_mem_append] at h
      have hheader := isMapperHeader_mapper name parameters (canonicalAll body) (d.ahead.map Token.kind)
      simp only [canonical] at hr
      rw [← kinds_ahead hr] at hheader
      simp only [symbols] at hr
      obtain ⟨f, hn, hp, hb, hy⟩ := parseFunction_complete body ⟨h.1, h.2.1, h.2.2.2.2.2.2.1⟩ hr
      refine ⟨.mapper f.name f.parameters f.body, by simp only [canonical, unplaced, hn, hp, hb], ?_⟩
      exact parseTopLevel_yields.2 (.inl ⟨⟨hr.current_kind, hheader⟩, f, hy, rfl⟩)
    | importType path localName =>
      simp only [canonical, symbols] at hr
      obtain ⟨s', hu, hy⟩ := parseImport_complete hr
      exact ⟨s', by simp only [hu, canonical], parseTopLevel_yields.2 (.inr (.inl ⟨hr.current_kind, hy⟩))⟩
    | _ => cases hl

/-- The symbols of the canonical tree of a program are read as that tree. -/
theorem parseProgram_complete {p : Program} (h : ∀ s ∈ p, s.Writable) (hr : c.Reads (symbolsOfAll (canonicalAll p)) d)
    (hd : d.kind = endOfInput) : ∃ q, unplacedAll q = unplacedAll (canonicalAll p) ∧ parseProgram c = .ok q := by
  induction p generalizing c with
  | nil =>
    obtain rfl := hr.nil_inv
    exact ⟨[], rfl, parseProgram_eq_ok.2 (.inl ⟨hd, rfl⟩)⟩
  | cons s p ih =>
    rw [List.forall_mem_cons] at h
    simp only [canonicalAll, symbolsOfAll] at hr
    obtain ⟨k, y, ys, hys, hk⟩ := s.canonical.symbols_eq_cons
    have hkind : c.kind = k := by
      rw [hys] at hr
      exact hr.current_kind
    obtain ⟨x, hs, hr⟩ := hr.split
    have helse : x.kind ≠ elseWord := by
      cases p with
      | nil =>
        obtain rfl := hr.nil_inv
        rw [hd]
        nofun
      | cons t p =>
        obtain ⟨k', y', ys', hys', hk'⟩ := t.canonical.symbols_eq_cons
        simp only [canonicalAll, symbolsOfAll, hys'] at hr
        rw [hr.current_kind]
        exact (ne_of_startsStmt hk').1
    obtain ⟨s', hu, hy⟩ := parseTopLevel_complete h.1 hs fun _ => helse
    obtain ⟨q, huq, hq⟩ := ih h.2 hr
    refine ⟨s' :: q, by simp only [canonicalAll, unplacedAll, hu, huq], ?_⟩
    exact parseProgram_eq_ok.2 (.inr ⟨by rw [hkind]; exact (ne_of_startsStmt hk).2.2, s', x, q, hy, hq, rfl⟩)

end Statements

/-! ## Programs -/

namespace Stmt

theorem formatProgram_unplacedAll (p : Program) : formatProgram (unplacedAll p) = formatProgram p := by
  cases p with
  | nil => rfl
  | cons s ss => simp only [unplacedAll, formatProgram, lexemes_unplaced, furtherLexemes_unplaced]

theorem formatProgram_canonicalAll (p : Program) : formatProgram (canonicalAll p) = formatProgram p := by
  cases p with
  | nil => rfl
  | cons s ss => simp only [canonicalAll, formatProgram, lexemes_canonical, furtherLexemes_canonical]

theorem parameterListSymbols_unplaced (p : Ident) (ps : List Ident) :
    parameterListSymbols p.unplaced (ps.map Ident.unplaced) = parameterListSymbols p ps := by
  induction ps generalizing p with
  | nil => rfl
  | cons q ps ih =>
    simp only [List.map_cons, parameterListSymbols, ih]
    rfl

theorem parameterSymbols_unplaced (ps : List Ident) :
    parameterSymbols (ps.map Ident.unplaced) = parameterSymbols ps := by
  cases ps with
  | nil => rfl
  | cons p ps => exact parameterListSymbols_unplaced p ps

mutual

theorem symbols_unplaced : ∀ s : Stmt, s.unplaced.symbols = s.symbols
  | expr _ | define .. | print _ | ret (some _) _ => by
    simp only [unplaced, symbols, Expr.symbols_unplaced, Ident.unplaced]
  | ret none _ | importType .. => by simp only [unplaced, symbols, Ident.unplaced]
  | ifThen condition thenBranch => by simp only [unplaced, symbols, Expr.symbols_unplaced, symbols_unplaced thenBranch]
  | ifElse condition thenBranch elseBranch => by
    simp only [unplaced, symbols, Expr.symbols_unplaced, symbols_unplaced thenBranch, symbols_unplaced elseBranch]
  | block body => by simp only [unplaced, symbols, symbolsOfAll_unplaced body]
  | function name parameters body | mapper name parameters body => by
    simp only [unplaced, symbols, Ident.unplaced, parameterSymbols_unplaced, symbolsOfAll_unplaced body]

theorem symbolsOfAll_unplaced : ∀ ss : List Stmt, symbolsOfAll (unplacedAll ss) = symbolsOfAll ss
  | [] => rfl
  | s :: ss => by simp only [unplacedAll, symbolsOfAll, symbols_unplaced s, symbolsOfAll_unplaced ss]

end

theorem mem_symbolsOfAll {y : Symbol} {s : Stmt} {ss : List Stmt} (hs : s ∈ ss) (hy : y ∈ s.symbols) :
    y ∈ symbolsOfAll ss := by
  induction hs with
  | head => exact List.mem_append_left _ hy
  | tail _ _ ih => exact List.mem_append_right _ ih

/-- What is the canonical tree, up to places, is alike. -/
theorem alike_of_canonicalAll {p q : Program} (h : unplacedAll q = unplacedAll (canonicalAll p)) :
    List.Forall₂ Alike p q := by
  induction p generalizing q with
  | nil =>
    cases q with
    | nil => exact .nil
    | cons => cases h
  | cons s p ih =>
    cases q with
    | nil => cases h
    | cons t q =>
      simp only [canonicalAll, unplacedAll, List.cons.injEq] at h
      refine .cons ?_ (ih h.2)
      rw [Alike, ← bare_canonical, ← bare_unplaced, ← h.1, bare_unplaced]

end Stmt

open Stmt

/-- A text that is cut into the symbols of the canonical tree of a program compiles to that tree, up to places. -/
theorem compile_of_cuts {text : String} {p : Program} (hp : ∀ s ∈ p, s.Writable)
    (h : Cuts text.toList (symbolsOfAll (canonicalAll p)) []) :
    ∃ q, unplacedAll q = unplacedAll (canonicalAll p) ∧ compile text = .ok q := by
  obtain ⟨ts, ht, hs⟩ := h.tokensFrom (.ofString text) 0
  let d : Cursor := ⟨ts.reverse, [Token.endOfInput]⟩
  have hr : (ofList (ts ++ [Token.endOfInput])).Reads (symbolsOfAll (canonicalAll p)) d :=
    ⟨ts, rfl, (List.append_nil _).symm, hs⟩
  obtain ⟨q, hu, hq⟩ := parseProgram_complete hp hr rfl
  exact ⟨q, hu, by rw [compile, tokenize, ht]; simp only [parse, hq]⟩

/-- A text that is cut into one literal compiles to that literal. -/
theorem compile_literal {text : String} {l : Literal} (h : Cuts text.toList [l.symbol] []) :
    ∃ position, compile text = .ok [.expr (.literal l position)] := by
  obtain ⟨ts, ht, hs⟩ := h.tokensFrom (.ofString text) 0
  let c : Cursor := ofList (ts ++ [Token.endOfInput])
  let d : Cursor := ⟨ts.reverse, [Token.endOfInput]⟩
  have hr : c.Reads [l.symbol] d := ⟨ts, rfl, (List.append_nil _).symm, hs⟩
  have hsymbols : (Expr.literal l .nowhere).symbols = [l.symbol] := by rw [Expr.symbols]
  obtain ⟨e, hu, he⟩ := parseExpr_complete (.literal l .nowhere) (by rw [Expr.WellRanked]; trivial) rfl (hsymbols ▸ hr)
  obtain ⟨p, rfl⟩ : ∃ p, e = .literal l p := by
    cases e with
    | literal l' p =>
      simp only [Expr.unplaced, Expr.literal.injEq] at hu
      exact ⟨p, by rw [hu.1]⟩
    | _ => simp only [Expr.unplaced, reduceCtorEq] at hu
  have hstatement : (parseStatement c).Yields (.expr (.literal l p)) d :=
    parseStatement_yields.2 (.inr (.inr (.inr (.inr (parseExprStmt_yields.2 ⟨_, d, he, rfl, rfl⟩)))))
  -- No literal starts with a name, so it is no head of a mapper.
  have hidentifier : ¬(c.kind = .identifier ∧ isMapperHeader (c.ahead.map Token.kind) = true) := by
    rintro ⟨hk, -⟩
    rw [hr.current_kind] at hk
    cases l with
    | bool b => cases b <;> cases hk
    | _ => cases hk
  have htop : (parseTopLevel c).Yields (.expr (.literal l p)) d :=
    parseTopLevel_yields.2 (.inr (.inr ⟨hidentifier, (kind_of_parseStatement hstatement).2.2.1,
      parseDeclaration_of_parseStatement hstatement⟩))
  have hprogram : parseProgram c = .ok [.expr (.literal l p)] :=
    parseProgram_eq_ok.2 (.inr ⟨(kind_of_parseStatement hstatement).2.2.2.2, _, d, [], htop,
      parseProgram_eq_ok.2 (.inl ⟨rfl, rfl⟩), rfl⟩)
  exact ⟨p, by rw [compile, tokenize, ht]; simp only [parse, c, hprogram]⟩

/-- What a text compiles to can be written, if the decimal texts of its numbers read back. -/
theorem writable_of_compile {source : String} {p : Program} (h : compile source = .ok p)
    (hf : ∀ s ∈ p, ∀ x, (number, .decimal x) ∈ s.symbols → ReadsBack x) : ∀ s ∈ p, s.Writable := by
  intro s hs
  obtain ⟨hshaped, hranked, hlexed⟩ := compile_lexed h s hs
  exact ⟨hshaped, hranked, fun y hy => ⟨hlexed y hy, fun x hx => hf s hs x (hx ▸ hy)⟩⟩

/-- The canonical text of a program that can be written compiles to its canonical tree, up to places. -/
theorem compile_canonicalText {p : Program} (hp : ∀ s ∈ p, s.Writable) :
    ∃ q, unplacedAll q = unplacedAll (canonicalAll p) ∧ compile (formatProgram p) = .ok q :=
  compile_of_cuts hp (cuts_formatProgram fun s hs => (hp s hs).2.2)

/-- The canonical text of a program compiles, to a program that has the same canonical text and is the first one but
for places, groups, and braces around an expression statement that is the first branch of a conditional. So does the
canonical text of each of its statements. The decimal texts of the numbers in the program are to read back. -/
theorem compile_formatProgram {source : String} {p : Program} (h : compile source = .ok p)
    (hf : ∀ s ∈ p, ∀ x, (number, .decimal x) ∈ s.symbols → ReadsBack x) :
    (∃ q, compile (formatProgram p) = .ok q ∧ formatProgram q = formatProgram p ∧ List.Forall₂ Alike p q) ∧
      ∀ s ∈ p, ∃ t, compile s.format = .ok [t] ∧ s.Alike t := by
  have hp := writable_of_compile h hf
  refine ⟨?_, fun s hs => ?_⟩
  · obtain ⟨q, hu, hq⟩ := compile_canonicalText hp
    refine ⟨q, hq, ?_, alike_of_canonicalAll hu⟩
    rw [← formatProgram_unplacedAll, hu, formatProgram_unplacedAll, formatProgram_canonicalAll]
  · have hcuts := cuts_format (hp s hs).2.2
    have hsymbols : symbolsOfAll (canonicalAll [s]) = s.canonical.symbols := List.append_nil _
    rw [← hsymbols] at hcuts
    obtain ⟨q, hu, hq⟩ := compile_of_cuts (List.forall_mem_singleton.2 (hp s hs)) hcuts
    obtain ⟨t, hst, rfl⟩ : ∃ t, s.Alike t ∧ q = [t] := by
      cases alike_of_canonicalAll hu with
      | cons hst hnil =>
        cases hnil
        exact ⟨_, hst, rfl⟩
    exact ⟨t, hq, hst⟩

/-- The canonical text of a conditional whose branch is a sum, and so gets braces, compiles to what has the same
canonical text. -/
theorem sum_in_branch_compiles :
    let sum : Expr := .binary .add (.name ⟨"a", .nowhere⟩) (.literal (.float 1.5) .nowhere) .nowhere
    let conditional : Stmt := .ifThen (.name ⟨"c", .nowhere⟩) (.expr sum)
    ∃ p q, compile (formatProgram [conditional]) = .ok p ∧ compile (formatProgram p) = .ok q ∧
      formatProgram q = formatProgram p ∧ List.Forall₂ Alike p q := by
  intro sum conditional
  have hone : IsDigits ['1'] := ⟨nofun, List.all_eq_true.1 rfl⟩
  have hfive : IsDigits ['5'] := ⟨nofun, List.all_eq_true.1 rfl⟩
  have htext : (Floating.decodeDouble 1.5).plain.toList = ['1'] ++ '.' :: ['5'] := by decide +kernel
  have hvalue : decimalValue ['1'] ['5'] = 1.5 := by decide +kernel
  have hread : ReadsBack 1.5 := by
    rw [ReadsBack, htext, ← hvalue]
    exact .point hone hfive
  have hfinite : Float.isFinite 1.5 = true := by decide +kernel
  have hsymbols : conditional.symbols = [ifWord.bare, (identifier, .text "c"), (identifier, .text "a"), plus.bare,
      (number, .decimal 1.5), semicolon.bare] := by
    simp [conditional, sum, symbols, Expr.symbols, Literal.symbol, Operator.kind]
  have hwritten : ∀ y ∈ conditional.symbols, Symbol.Written y := by
    rw [hsymbols]
    simp only [List.forall_mem_cons]
    have hc : IsName "c" := .inl ⟨⟨'c', [], rfl, rfl, List.forall_mem_nil _⟩, rfl⟩
    have ha : IsName "a" := .inl ⟨⟨'a', [], rfl, rfl, List.forall_mem_nil _⟩, rfl⟩
    refine ⟨⟨rfl, fun x hx => ?_⟩, ⟨hc, fun x hx => ?_⟩, ⟨ha, fun x hx => ?_⟩, ⟨rfl, fun x hx => ?_⟩,
      ⟨hfinite, fun x hx => ?_⟩, ⟨rfl, fun x hx => ?_⟩, List.forall_mem_nil _⟩
    all_goals cases hx
    exact hread
  have hwritable : ∀ s ∈ [conditional], s.Writable := by
    refine List.forall_mem_singleton.2 ⟨?_, ?_, hwritten⟩
    · simp [conditional, Shaped, isPlain]
    · simp [conditional, sum, WellRanked, Expr.WellRanked, Expr.rank, Expr.endsInSet, Operator.level]
  obtain ⟨p, hu, hp⟩ := compile_canonicalText hwritable
  have hnumbers : ∀ s ∈ p, ∀ x, (number, .decimal x) ∈ s.symbols → ReadsBack x := by
    intro s hs x hx
    have hmem := mem_symbolsOfAll hs hx
    rw [← symbolsOfAll_unplaced, hu, symbolsOfAll_unplaced] at hmem
    have hbraces : (Stmt.expr sum).continuesCondition = true := rfl
    have hx : x = 1.5 := by
      simpa [conditional, sum, hbraces, canonicalAll, canonical, blockIf, symbolsOfAll, symbols, Expr.canonical,
        Expr.symbols, Literal.symbol] using hmem
    rwa [hx]
  obtain ⟨⟨q, hq, hf, ha⟩, -⟩ := compile_formatProgram hp hnumbers
  exact ⟨p, q, hp, hq, hf, ha⟩

end QueryTemplate
