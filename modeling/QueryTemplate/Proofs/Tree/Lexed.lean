import QueryTemplate.Template
import QueryTemplate.Proofs.Token.Cutting
import QueryTemplate.Proofs.Tree.Statements
import QueryTemplate.Proofs.Tree.StmtSymbols

/-!
# The trees of texts

What the readers yield for the tokens of a text: every symbol of the tree can be that of a token, and the expressions in
it keep to the precedence of the operators (`compile_lexed`). Only the names of an import take a look into the text of
a tree, since a path is kept in one piece.
-/

namespace QueryTemplate

open Parsed Cursor

/-! ## Cursors -/

/-- Whether the tokens ahead can be those of a text. -/
def Cursor.Lexed (c : Cursor) : Prop := ∀ t ∈ c.ahead, Symbol.Lexed t.symbol

namespace Cursor.Lexed

variable {c d : Cursor}

theorem wellShaped (h : c.Lexed) : c.WellShaped := fun t ht => (h t ht).wellShaped

theorem reads {ss : List Symbol} (h : c.Lexed) (hr : c.Reads ss d) : (∀ s ∈ ss, Symbol.Lexed s) ∧ d.Lexed := by
  obtain ⟨ts, ha, -, rfl⟩ := hr
  rw [Cursor.Lexed, ha, List.forall_mem_append] at h
  exact ⟨by simpa using h.1, h.2⟩

theorem advance (h : c.Lexed) : c.advance.Lexed := by
  by_cases hk : c.kind = .endOfInput
  · rw [Cursor.advance]
    split
    · exact h
    next t ts ha =>
      rw [if_pos (by rwa [kind, current, ha] at hk)]
      exact h
  · exact (h.reads (reads_advance hk)).2

theorem skipSemicolon (h : c.Lexed) : c.skipSemicolon.Lexed := by
  unfold Cursor.skipSemicolon
  split
  · exact h.advance
  · exact h

theorem ident (h : c.Lexed) (hk : c.kind = .identifier) : Symbol.Lexed c.ident.symbol := by
  rw [← symbol_identifier h.wellShaped hk]
  exact (h.reads (reads_advance (by rw [hk]; decide))).1 _ (List.mem_singleton_self _)

theorem parseExpr {e : Expr} (h : c.Lexed) (he : (parseExpr c).Yields e d) :
    e.WellRanked ∧ (∀ s ∈ e.symbols, Symbol.Lexed s) ∧ d.Lexed := by
  obtain ⟨hr, hw, -⟩ := parseExpr_sound h.wellShaped he
  exact ⟨hw, h.reads hr⟩

end Cursor.Lexed

/-! ## Names -/

theorem not_mem_of_isName {s : String} (h : IsName s) : '.' ∉ s.toList := by
  have hword : ∀ {cs}, IsWord cs → '.' ∉ cs := by
    rintro cs ⟨c, ds, rfl, hc, hds⟩ hm
    rcases List.mem_cons.1 hm with rfl | hm
    · cases hc
    · cases hds '.' hm
  rcases h with ⟨h, -⟩ | ⟨cs, hs, h⟩
  · exact hword h
  · rw [hs]
    intro hm
    rcases List.mem_cons.1 hm with hm | hm
    · cases hm
    · exact hword h hm

theorem lexed_pathSymbols {names : List (List Char)} (h : ∀ cs ∈ names, IsName (String.ofList cs)) :
    ∀ s ∈ pathSymbols names, Symbol.Lexed s := by
  match names with
  | [] => exact List.forall_mem_nil _
  | [cs] => exact List.forall_mem_singleton.2 (h cs List.mem_cons_self)
  | cs :: cs' :: names =>
    intro s hs
    rcases List.mem_cons.1 hs with rfl | hs
    · exact h cs List.mem_cons_self
    · rcases List.mem_cons.1 hs with rfl | hs
      · rfl
      · exact lexed_pathSymbols (fun cs hcs => h cs (List.mem_cons_of_mem _ hcs)) s hs

/-- The names of a path and the last of them. -/
theorem parsePath_lexed {role : NameRole} {c d : Cursor} {path : String} {last : Ident} (hc : c.Lexed)
    (h : (parsePath role c).Yields (path, last) d) :
    (∀ cs ∈ path.toList.splitOn '.', IsName (String.ofList cs)) ∧ Symbol.Lexed last.symbol ∧ d.Lexed := by
  obtain ⟨hk, ⟨hdot, rest, hr, rfl⟩ | ⟨-, rfl, rfl, rfl⟩⟩ := parsePath_yields.1 h
  · have h₁ := c.remaining_advance_le
    have h₂ := remaining_advance_lt (c := c.advance) (by rw [hdot]; decide)
    have hname : IsName c.ident.name := hc.ident hk
    obtain ⟨hrest, hlast⟩ := parsePath_lexed hc.advance.advance hr
    refine ⟨?_, hlast⟩
    have : (c.ident.name ++ "." ++ rest).toList = c.ident.name.toList ++ '.' :: rest.toList := by
      simp
    rw [this, List.splitOn_append_cons_self_of_not_mem (not_mem_of_isName hname), List.forall_mem_cons,
      String.ofList_toList]
    exact ⟨hname, hrest⟩
  · have hname : IsName c.ident.name := hc.ident hk
    rw [List.splitOn_eq_singleton (not_mem_of_isName hname), List.forall_mem_singleton, String.ofList_toList]
    exact ⟨hname, hname, hc.advance⟩
termination_by c.remaining

/-! ## Statements -/

namespace Stmt

mutual

/-- Whether the expressions of a statement keep to the precedence of the operators. -/
def WellRanked : Stmt → Prop
  | expr e | define _ e | print e | ret (some e) _ => e.WellRanked
  | ifThen condition thenBranch => condition.WellRanked ∧ thenBranch.WellRanked
  | ifElse condition thenBranch elseBranch =>
    condition.WellRanked ∧ thenBranch.WellRanked ∧ elseBranch.WellRanked
  | block body | function _ _ body | mapper _ _ body => AllWellRanked body
  | ret none _ | importType .. => True

/-- The same for the statements of a block. -/
def AllWellRanked : List Stmt → Prop
  | [] => True
  | s :: ss => s.WellRanked ∧ AllWellRanked ss

end

/-- Whether a statement can be read from a text. -/
def Lexed (s : Stmt) : Prop := s.WellRanked ∧ ∀ y ∈ s.symbols, Symbol.Lexed y

/-- Whether statements can be read from a text. -/
def AllLexed (ss : List Stmt) : Prop := AllWellRanked ss ∧ ∀ y ∈ symbolsOfAll ss, Symbol.Lexed y

theorem allLexed_cons {s : Stmt} {ss : List Stmt} : AllLexed (s :: ss) ↔ s.Lexed ∧ AllLexed ss := by
  simp only [AllLexed, Lexed, AllWellRanked, symbolsOfAll, List.forall_mem_append]
  exact and_and_and_comm

end Stmt

open Stmt

section Statements

theorem parseParameterList_lexed {c d : Cursor} {ps : List Ident} (hc : c.Lexed)
    (h : (parseParameterList c).Yields ps d) :
    (∃ p qs, ps = p :: qs ∧ ∀ y ∈ parameterListSymbols p qs, Symbol.Lexed y) ∧ d.Lexed := by
  obtain ⟨hk, ⟨hcomma, rest, hr, rfl⟩ | ⟨-, rfl, rfl⟩⟩ := parseParameterList_yields.1 h
  · have h₁ := c.remaining_advance_le
    have h₂ := remaining_advance_lt (c := c.advance) (by rw [hcomma]; decide)
    obtain ⟨⟨p, qs, rfl, hps⟩, hd⟩ := parseParameterList_lexed hc.advance.advance hr
    refine ⟨⟨c.ident, p :: qs, rfl, ?_⟩, hd⟩
    simp only [parameterListSymbols, List.forall_mem_cons]
    exact ⟨hc.ident hk, rfl, hps⟩
  · refine ⟨⟨c.ident, [], rfl, ?_⟩, hc.advance.advance⟩
    simp only [parameterListSymbols, List.forall_mem_cons]
    exact ⟨hc.ident hk, rfl, List.forall_mem_nil _⟩
termination_by c.remaining

theorem parseParameters_lexed {c d : Cursor} {ps : List Ident} (hc : c.Lexed) (h : (parseParameters c).Yields ps d) :
    (∀ y ∈ parameterSymbols ps, Symbol.Lexed y) ∧ d.Lexed := by
  rcases parseParameters_yields.1 h with ⟨-, rfl, rfl⟩ | ⟨-, h⟩
  · exact ⟨List.forall_mem_singleton.2 rfl, hc.advance⟩
  · obtain ⟨⟨p, qs, rfl, hps⟩, hd⟩ := parseParameterList_lexed hc h
    exact ⟨hps, hd⟩

theorem parseExprStmt_lexed {make : Expr → Stmt} {c d : Cursor} {s : Stmt} (hc : c.Lexed)
    (hmake : ∀ {e}, e.WellRanked → (∀ y ∈ e.symbols, Symbol.Lexed y) → (make e).Lexed)
    (h : (parseExprStmt make c).Yields s d) : s.Lexed ∧ d.Lexed := by
  obtain ⟨e, x, he, rfl, rfl⟩ := parseExprStmt_yields.1 h
  obtain ⟨hw, hs, hx⟩ := hc.parseExpr he
  exact ⟨hmake hw hs, hx.skipSemicolon⟩

theorem lexed_expr {e : Expr} (hw : e.WellRanked) (hs : ∀ y ∈ e.symbols, Symbol.Lexed y) : (Stmt.expr e).Lexed := by
  simp only [Stmt.Lexed, Stmt.WellRanked, Stmt.symbols, List.forall_mem_append, List.forall_mem_singleton]
  exact ⟨hw, hs, rfl⟩

theorem lexed_print {e : Expr} (hw : e.WellRanked) (hs : ∀ y ∈ e.symbols, Symbol.Lexed y) :
    (Stmt.print e).Lexed := by
  simp only [Stmt.Lexed, Stmt.WellRanked, Stmt.symbols, List.forall_mem_cons, List.forall_mem_append]
  exact ⟨hw, rfl, hs, rfl, List.forall_mem_nil _⟩

theorem lexed_ret {e : Expr} (p : Position) (hw : e.WellRanked) (hs : ∀ y ∈ e.symbols, Symbol.Lexed y) :
    (Stmt.ret (some e) p).Lexed := by
  simp only [Stmt.Lexed, Stmt.WellRanked, Stmt.symbols, List.forall_mem_cons, List.forall_mem_append]
  exact ⟨hw, rfl, hs, rfl, List.forall_mem_nil _⟩

theorem lexed_define {name : Ident} {e : Expr} (hn : Symbol.Lexed name.symbol) (hw : e.WellRanked)
    (hs : ∀ y ∈ e.symbols, Symbol.Lexed y) : (Stmt.define name e).Lexed := by
  simp only [Stmt.Lexed, Stmt.WellRanked, Stmt.symbols, List.forall_mem_cons, List.forall_mem_append]
  exact ⟨hw, rfl, hn, rfl, hs, rfl, List.forall_mem_nil _⟩

theorem parseDefine_lexed {c d : Cursor} {s : Stmt} (hc : c.Lexed) (h : (parseDefine c).Yields s d) :
    s.Lexed ∧ d.Lexed := by
  obtain ⟨hk, ⟨-, value, x, hv, rfl, rfl⟩ | ⟨-, rfl, rfl⟩⟩ := parseDefine_yields.1 h
  · obtain ⟨hw, hs, hx⟩ := hc.advance.advance.advance.parseExpr hv
    exact ⟨lexed_define (hc.advance.ident hk) hw hs, hx.skipSemicolon⟩
  · refine ⟨lexed_define (hc.advance.ident hk) ?_ ?_, hc.advance.advance.skipSemicolon⟩
    · simp only [Expr.WellRanked]
    · simp only [Expr.symbols]
      exact List.forall_mem_singleton.2 rfl

mutual

theorem parseDeclaration_lexed {c d : Cursor} {s : Stmt} (hc : c.Lexed) (h : (parseDeclaration c).Yields s d) :
    s.Lexed ∧ d.Lexed := by
  rcases parseDeclaration_yields.1 h with ⟨-, h⟩ | ⟨hk, f, hf, rfl⟩ | ⟨-, -, h⟩
  · exact parseDefine_lexed hc h
  · have hlt : c.advance.remaining < c.remaining := remaining_advance_lt (by rw [hk]; decide)
    obtain ⟨⟨hw, hs⟩, hd⟩ := parseFunction_lexed hc.advance hf
    refine ⟨⟨?_, ?_⟩, hd⟩
    · simpa only [Stmt.WellRanked] using hw
    · simp only [Stmt.symbols] at hs ⊢
      exact List.forall_mem_cons.2 ⟨rfl, hs⟩
  · exact parseStatement_lexed hc h
termination_by (c.remaining, 3)

theorem parseStatement_lexed {c d : Cursor} {s : Stmt} (hc : c.Lexed) (h : (parseStatement c).Yields s d) :
    s.Lexed ∧ d.Lexed := by
  rcases parseStatement_yields.1 h with ⟨-, h⟩ | ⟨-, condition, x, thenBranch, y, hx, hy, h⟩ | ⟨-, h⟩ |
    ⟨hk, body, hb, rfl⟩ | h
  · exact parseExprStmt_lexed hc.advance lexed_print h
  · have h₁ := c.remaining_advance_le
    have h₂ := hx.nearer
    obtain ⟨hw, hs, hx'⟩ := hc.advance.parseExpr hx
    obtain ⟨⟨hw', hs'⟩, hy'⟩ := parseStatement_lexed hx' hy
    rcases h with ⟨-, elseBranch, hz, rfl⟩ | ⟨-, rfl, rfl⟩
    · have h₃ := hy.nearer
      have h₄ := y.remaining_advance_le
      obtain ⟨⟨hw'', hs''⟩, hd⟩ := parseStatement_lexed hy'.advance hz
      refine ⟨⟨by simpa only [Stmt.WellRanked] using ⟨hw, hw', hw''⟩, ?_⟩, hd⟩
      simp only [Stmt.symbols, List.forall_mem_cons, List.forall_mem_append]
      exact ⟨rfl, hs, hs', rfl, hs''⟩
    · refine ⟨⟨by simpa only [Stmt.WellRanked] using ⟨hw, hw'⟩, ?_⟩, hy'⟩
      simp only [Stmt.symbols, List.forall_mem_cons, List.forall_mem_append]
      exact ⟨rfl, hs, hs'⟩
  · rcases h with ⟨-, rfl, rfl⟩ | ⟨value, x, hv, rfl, rfl⟩
    · refine ⟨⟨by simp only [Stmt.WellRanked], ?_⟩, hc.advance.skipSemicolon⟩
      simp only [Stmt.symbols, List.forall_mem_cons]
      exact ⟨rfl, rfl, List.forall_mem_nil _⟩
    · obtain ⟨hw, hs, hx⟩ := hc.advance.parseExpr hv
      exact ⟨lexed_ret _ hw hs, hx.skipSemicolon⟩
  · have hlt : c.advance.remaining < c.remaining := remaining_advance_lt (by rw [hk]; decide)
    obtain ⟨⟨hw, hs⟩, hd⟩ := parseBlock_lexed hc.advance hb
    refine ⟨⟨by simpa only [Stmt.WellRanked] using hw, ?_⟩, hd⟩
    simp only [Stmt.symbols, List.forall_mem_cons, List.forall_mem_append]
    exact ⟨rfl, hs, rfl, List.forall_mem_nil _⟩
  · exact parseExprStmt_lexed hc lexed_expr h
termination_by (c.remaining, 2)

theorem parseBlock_lexed {c d : Cursor} {ss : List Stmt} (hc : c.Lexed) (h : (parseBlock c).Yields ss d) :
    AllLexed ss ∧ d.Lexed := by
  rcases parseBlock_yields.1 h with ⟨-, rfl, rfl⟩ | ⟨-, -, s, x, rest, hs, hr, rfl⟩
  · exact ⟨⟨trivial, List.forall_mem_nil _⟩, hc.advance⟩
  · have hlt := hs.nearer
    obtain ⟨hs', hx⟩ := parseDeclaration_lexed hc hs
    obtain ⟨hr', hd⟩ := parseBlock_lexed hx hr
    exact ⟨allLexed_cons.2 ⟨hs', hr'⟩, hd⟩
termination_by (c.remaining, 4)

theorem parseFunction_lexed {c d : Cursor} {f : FunctionDecl} (hc : c.Lexed) (h : (parseFunction c).Yields f d) :
    (Stmt.mapper f.name f.parameters f.body).Lexed ∧ d.Lexed := by
  have body : ∀ {name ps body}, Symbol.Lexed name.symbol → (∀ y ∈ parameterSymbols ps, Symbol.Lexed y) →
      AllLexed body → (Stmt.mapper name ps body).Lexed := fun hn hp hb => by
    simp only [Stmt.Lexed, Stmt.WellRanked, Stmt.symbols, List.forall_mem_cons, List.forall_mem_append]
    exact ⟨hb.1, hn, rfl, hp, rfl, hb.2, rfl, List.forall_mem_nil _⟩
  obtain ⟨hk, -, parameters, x, hx, h⟩ := parseFunction_yields.1 h
  have h₁ := c.remaining_advance_le
  have h₂ := c.advance.remaining_advance_le
  have h₃ := hx.nearer
  have h₄ := x.remaining_advance_le
  obtain ⟨hp, hx'⟩ := parseParameters_lexed hc.advance.advance hx
  rcases h with ⟨-, value, y, hv, rfl, rfl⟩ | ⟨-, ss, hb, rfl⟩
  · obtain ⟨hw, hs, hy⟩ := hx'.advance.parseExpr hv
    exact ⟨body (hc.ident hk) hp (allLexed_cons.2 ⟨lexed_ret _ hw hs, trivial, List.forall_mem_nil _⟩),
      hy.skipSemicolon⟩
  · obtain ⟨hb', hd⟩ := parseBlock_lexed hx'.advance hb
    exact ⟨body (hc.ident hk) hp hb', hd⟩
termination_by (c.remaining, 1)

end

theorem parseImport_lexed {c d : Cursor} {s : Stmt} (hc : c.Lexed) (h : (parseImport c).Yields s d) :
    s.Lexed ∧ d.Lexed := by
  have local_lexed : ∀ {path localName}, (∀ cs ∈ path.toList.splitOn '.', IsName (String.ofList cs)) →
      Symbol.Lexed localName.symbol → (Stmt.importType path localName).Lexed := fun {path localName} hp hl => by
    have has : Symbol.Lexed (.identifier, .text "as") := .inl ⟨⟨'a', _, rfl, rfl, List.all_eq_true.1 rfl⟩, rfl⟩
    simp only [Stmt.Lexed, Stmt.WellRanked, Stmt.symbols, importSymbols, List.forall_mem_cons, List.forall_mem_append,
      true_and]
    refine ⟨rfl, ⟨lexed_pathSymbols hp, ?_⟩, rfl, List.forall_mem_nil _⟩
    split
    · exact List.forall_mem_nil _
    · exact List.forall_mem_cons.2 ⟨has, List.forall_mem_singleton.2 hl⟩
  obtain ⟨path, last, x, hp, h⟩ := parseImport_yields.1 h
  obtain ⟨hnames, hlast, hx⟩ := parsePath_lexed hc.advance hp
  rcases h with ⟨-, hk, rfl, rfl⟩ | ⟨-, rfl, rfl⟩
  · exact ⟨local_lexed hnames (hx.advance.ident hk), hx.advance.advance.skipSemicolon⟩
  · exact ⟨local_lexed hnames hlast, hx.skipSemicolon⟩

theorem parseTopLevel_lexed {c d : Cursor} {s : Stmt} (hc : c.Lexed) (h : (parseTopLevel c).Yields s d) :
    s.Lexed ∧ d.Lexed := by
  rcases parseTopLevel_yields.1 h with ⟨-, f, hf, rfl⟩ | ⟨-, h⟩ | ⟨-, -, h⟩
  · exact parseFunction_lexed hc hf
  · exact parseImport_lexed hc h
  · exact parseDeclaration_lexed hc h

theorem parseProgram_lexed {c : Cursor} {p : Program} (hc : c.Lexed) (h : parseProgram c = .ok p) :
    ∀ s ∈ p, s.Lexed := by
  induction p generalizing c with
  | nil => exact List.forall_mem_nil _
  | cons s p ih =>
    rcases parseProgram_eq_ok.1 h with ⟨-, h⟩ | ⟨-, s', d, rest, hs, hr, he⟩
    · cases h
    · obtain ⟨rfl, rfl⟩ := List.cons.inj he
      obtain ⟨hs', hd⟩ := parseTopLevel_lexed hc hs
      exact List.forall_mem_cons.2 ⟨hs', ih hd hr⟩

end Statements

/-- The statements of a text have the shape that the grammar gives them, and symbols of a text. -/
theorem compile_lexed {source : String} {p : Program} (h : compile source = .ok p) : ∀ s ∈ p, s.Shaped ∧ s.Lexed := by
  unfold compile at h
  split at h
  next => cases h
  next tokens ht =>
    split at h
    next => cases h
    next hp =>
      cases h
      exact fun s hs => ⟨parse_shaped hp s hs, parseProgram_lexed (tokenize_lexed ht) hp s hs⟩

end QueryTemplate
