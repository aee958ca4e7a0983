import Mathlib
import QueryTemplate.Template
import QueryTemplate.Proofs.Tree.Headers
import QueryTemplate.Proofs.Tree.Moved
import QueryTemplate.Proofs.Tree.StmtSymbols

/-!
# Templates below each other

If the last token of a template ends a statement, the template and another one below it are one template, with the
statements of both (`compile_below`). What could make a difference is a look at the token behind a statement: for a
semicolon, which has been there, or for an `else`, which starts no template.
-/

namespace QueryTemplate

open Parsed Cursor

/-! ## Statements -/

section Statements

variable {f : Position → Position} {tail : List Token} {c c' d : Cursor}

theorem parseExprStmt_moved {make : Expr → Stmt} {s : Stmt} (hmake : ∀ e, (make e).moved f = make (e.moved f))
    (hc : Within f tail c c') (h : (parseExprStmt make c).Yields s d) :
    ∃ d', (parseExprStmt make c').Yields (s.moved f) d' ∧ Between f tail d d' := by
  obtain ⟨e, x, he, rfl, rfl⟩ := parseExprStmt_yields.1 h
  obtain ⟨x', he', hx⟩ := parseExpr_moved hc he
  exact ⟨_, parseExprStmt_yields.2 ⟨_, x', he', hmake e, rfl⟩, hx.skipSemicolon⟩

theorem parseDefine_moved {s : Stmt} (hc : Within f tail c c') (hk : c.kind = .varWord)
    (h : (parseDefine c).Yields s d) : ∃ d', (parseDefine c').Yields (s.moved f) d' ∧ Between f tail d d' := by
  have hname := hc.advance hk
  obtain ⟨hi, h⟩ := parseDefine_yields.1 h
  have hequal := hname.advance hi
  rcases h with ⟨he, value, x, hv, rfl, rfl⟩ | ⟨he, rfl, rfl⟩
  · obtain ⟨x', hv', hx⟩ := parseExpr_moved (hequal.advance he) hv
    refine ⟨_, parseDefine_yields.2 ⟨hname.kind ▸ hi, .inl ⟨hequal.kind ▸ he, _, x', hv', ?_, rfl⟩⟩, hx.skipSemicolon⟩
    rw [Stmt.moved, hname.ident hi]
  · refine ⟨_, parseDefine_yields.2 ⟨hname.kind ▸ hi, .inr ⟨hequal.kind ▸ he, ?_, rfl⟩⟩, hequal.skipSemicolon⟩
    rw [Stmt.moved, Expr.moved, hname.ident hi]
    rfl

theorem parseParameterList_moved {c c' d : Cursor} {ps : List Ident} (hc : Within f tail c c')
    (h : (parseParameterList c).Yields ps d) :
    ∃ d', (parseParameterList c').Yields (ps.map (Ident.moved f)) d' ∧ Within f tail d d' := by
  obtain ⟨hi, h⟩ := parseParameterList_yields.1 h
  have hnext := hc.advance hi
  rcases h with ⟨hcomma, rest, hr, rfl⟩ | ⟨hp, rfl, rfl⟩
  · have h₁ := c.remaining_advance_le
    have h₂ := remaining_advance_lt (c := c.advance) (by rw [hcomma]; decide)
    obtain ⟨d', hr', hd⟩ := parseParameterList_moved (hnext.advance hcomma) hr
    refine ⟨d', parseParameterList_yields.2 ⟨hc.kind ▸ hi, .inl ⟨hnext.kind ▸ hcomma, _, hr', ?_⟩⟩, hd⟩
    rw [List.map_cons, hc.ident hi]
  · refine ⟨_, parseParameterList_yields.2 ⟨hc.kind ▸ hi, .inr ⟨hnext.kind ▸ hp, ?_, rfl⟩⟩, hnext.advance hp⟩
    rw [List.map_singleton, hc.ident hi]
termination_by c.remaining

theorem parseParameters_moved {ps : List Ident} (hc : Within f tail c c') (h : (parseParameters c).Yields ps d) :
    ∃ d', (parseParameters c').Yields (ps.map (Ident.moved f)) d' ∧ Within f tail d d' := by
  rcases parseParameters_yields.1 h with ⟨hk, rfl, rfl⟩ | ⟨hk, h⟩
  · exact ⟨_, parseParameters_yields.2 (.inl ⟨hc.kind ▸ hk, rfl, rfl⟩), hc.advance hk⟩
  · obtain ⟨d', h', hd⟩ := parseParameterList_moved hc h
    exact ⟨d', parseParameters_yields.2 (.inr ⟨hc.kind ▸ hk, h'⟩), hd⟩

theorem parsePath_moved {role : NameRole} {c c' d : Cursor} {path : String} {last : Ident} (hc : Within f tail c c')
    (h : (parsePath role c).Yields (path, last) d) :
    ∃ d', (parsePath role c').Yields (path, last.moved f) d' ∧ Within f tail d d' := by
  obtain ⟨hi, h⟩ := parsePath_yields.1 h
  have hnext := hc.advance hi
  have hname : c'.ident.name = c.ident.name := by rw [hc.ident hi]; rfl
  rcases h with ⟨hdot, rest, hr, rfl⟩ | ⟨hdot, rfl, rfl, rfl⟩
  · have h₁ := c.remaining_advance_le
    have h₂ := remaining_advance_lt (c := c.advance) (by rw [hdot]; decide)
    obtain ⟨d', hr', hd⟩ := parsePath_moved (hnext.advance hdot) hr
    exact ⟨d', parsePath_yields.2 ⟨hc.kind ▸ hi, .inl ⟨hnext.kind ▸ hdot, rest, hr', by rw [hname]⟩⟩, hd⟩
  · exact ⟨_, parsePath_yields.2 ⟨hc.kind ▸ hi, .inr ⟨hnext.kind ▸ hdot, hname.symm, (hc.ident hi).symm, rfl⟩⟩, hnext⟩
termination_by c.remaining

theorem parseImport_moved {s : Stmt} (hc : Within f tail c c') (hk : c.kind = .importWord)
    (h : (parseImport c).Yields s d) : ∃ d', (parseImport c').Yields (s.moved f) d' ∧ Between f tail d d' := by
  obtain ⟨path, last, x, hp, h⟩ := parseImport_yields.1 h
  obtain ⟨x', hp', hx⟩ := parsePath_moved (hc.advance hk) hp
  have has : x'.kind = .identifier ∧ x'.current.payload.text? = some "as" ↔
      x.kind = .identifier ∧ x.current.payload.text? = some "as" := by
    rw [hx.kind]
    refine and_congr_right fun hi => ?_
    rw [hx.current hi]
    rfl
  rcases h with ⟨ha, hi, rfl, rfl⟩ | ⟨ha, rfl, rfl⟩
  · have hname := hx.advance ha.1
    refine ⟨_, parseImport_yields.2 ⟨_, _, x', hp', .inl ⟨has.2 ha, hname.kind ▸ hi, ?_, rfl⟩⟩,
      (hname.advance hi).skipSemicolon⟩
    rw [Stmt.moved, hname.ident hi]
  · refine ⟨_, parseImport_yields.2 ⟨_, _, x', hp', .inr ⟨mt has.1 ha, ?_, rfl⟩⟩, hx.skipSemicolon⟩
    rw [Stmt.moved]

mutual

theorem parseDeclaration_moved {c c' d : Cursor} {s : Stmt} (hc : Within f tail c c')
    (h : (parseDeclaration c).Yields s d) :
    ∃ d', (parseDeclaration c').Yields (s.moved f) d' ∧ Between f tail d d' := by
  rcases parseDeclaration_yields.1 h with ⟨hk, h⟩ | ⟨hk, g, hg, rfl⟩ | ⟨h₁, h₂, h⟩
  · obtain ⟨d', h', hd⟩ := parseDefine_moved hc hk h
    exact ⟨d', parseDeclaration_yields.2 (.inl ⟨hc.kind ▸ hk, h'⟩), hd⟩
  · have hlt : c.advance.remaining < c.remaining := remaining_advance_lt (by rw [hk]; decide)
    obtain ⟨d', hg', hd⟩ := parseFunction_moved (hc.advance hk) hg
    refine ⟨d', parseDeclaration_yields.2 (.inr (.inl ⟨hc.kind ▸ hk, _, hg', ?_⟩)), hd⟩
    rw [Stmt.moved]
  · obtain ⟨d', h', hd⟩ := parseStatement_moved hc h
    exact ⟨d', parseDeclaration_yields.2 (.inr (.inr ⟨hc.kind ▸ h₁, hc.kind ▸ h₂, h'⟩)), hd⟩
termination_by (c.remaining, 3)

theorem parseStatement_moved {c c' d : Cursor} {s : Stmt} (hc : Within f tail c c')
    (h : (parseStatement c).Yields s d) :
    ∃ d', (parseStatement c').Yields (s.moved f) d' ∧ Between f tail d d' := by
  rcases parseStatement_yields.1 h with ⟨hk, h⟩ | ⟨hk, condition, x, thenBranch, y, hx, hy, h⟩ | ⟨hk, h⟩ |
    ⟨hk, body, hb, rfl⟩ | h
  · obtain ⟨d', h', hd⟩ := parseExprStmt_moved (fun _ => by rw [Stmt.moved]) (hc.advance hk) h
    exact ⟨d', parseStatement_yields.2 (.inl ⟨hc.kind ▸ hk, h'⟩), hd⟩
  · have h₁ := c.remaining_advance_le
    have h₂ := hx.nearer
    obtain ⟨x', hx', hxx⟩ := parseExpr_moved (hc.advance hk) hx
    obtain ⟨y', hy', hyy⟩ := parseStatement_moved hxx hy
    rcases h with ⟨he, elseBranch, hz, rfl⟩ | ⟨he, rfl, rfl⟩
    · have h₃ := hy.nearer
      have h₄ := y.remaining_advance_le
      have helse := hyy.within (by rw [he]; decide)
      obtain ⟨d', hz', hd⟩ := parseStatement_moved (helse.advance he) hz
      refine ⟨d', parseStatement_yields.2 (.inr (.inl ⟨hc.kind ▸ hk, _, x', _, y', hx', hy',
        .inl ⟨helse.kind ▸ he, _, hz', ?_⟩⟩)), hd⟩
      rw [Stmt.moved]
    · refine ⟨y', parseStatement_yields.2 (.inr (.inl ⟨hc.kind ▸ hk, _, x', _, y', hx', hy',
        .inr ⟨hyy.kind_ne he, ?_, rfl⟩⟩)), hyy⟩
      rw [Stmt.moved]
  · have hnext := hc.advance hk
    rcases h with ⟨he, rfl, rfl⟩ | ⟨value, x, hv, rfl, rfl⟩
    · refine ⟨_, parseStatement_yields.2 (.inr (.inr (.inl ⟨hc.kind ▸ hk, .inl ⟨hnext.kind ▸ he, ?_, rfl⟩⟩))),
        hnext.skipSemicolon⟩
      rw [Stmt.moved, hc.position hk]
      rfl
    · obtain ⟨x', hv', hx⟩ := parseExpr_moved hnext hv
      refine ⟨_, parseStatement_yields.2 (.inr (.inr (.inl ⟨hc.kind ▸ hk, .inr ⟨_, x', hv', ?_, rfl⟩⟩))),
        hx.skipSemicolon⟩
      rw [Stmt.moved, hc.position hk]
      rfl
  · have hlt : c.advance.remaining < c.remaining := remaining_advance_lt (by rw [hk]; decide)
    obtain ⟨d', hb', hd⟩ := parseBlock_moved (hc.advance hk).1 hb
    refine ⟨d', parseStatement_yields.2 (.inr (.inr (.inr (.inl ⟨hc.kind ▸ hk, _, hb', ?_⟩)))), hd⟩
    rw [Stmt.moved]
  · obtain ⟨d', h', hd⟩ := parseExprStmt_moved (fun _ => by rw [Stmt.moved]) hc h
    exact ⟨d', parseStatement_yields.2 (.inr (.inr (.inr (.inr h')))), hd⟩
termination_by (c.remaining, 2)

theorem parseBlock_moved {c c' d : Cursor} {ss : List Stmt} (hc : Between f tail c c')
    (h : (parseBlock c).Yields ss d) :
    ∃ d', (parseBlock c').Yields (Stmt.movedAll f ss) d' ∧ Between f tail d d' := by
  rcases parseBlock_yields.1 h with ⟨hk, rfl, rfl⟩ | ⟨hk, he, s, x, rest, hs, hr, rfl⟩
  · have hne : c.kind ≠ .endOfInput := by rw [hk]; decide
    exact ⟨_, parseBlock_yields.2 (.inl ⟨(hc.within hne).kind ▸ hk, rfl, rfl⟩), hc.advance hne⟩
  · have hlt := hs.nearer
    have hin := hc.within he
    obtain ⟨x', hs', hx⟩ := parseDeclaration_moved hin hs
    obtain ⟨d', hr', hd⟩ := parseBlock_moved hx hr
    exact ⟨d', parseBlock_yields.2 (.inr ⟨hin.kind ▸ hk, hin.kind ▸ he, _, x', _, hs', hr', rfl⟩), hd⟩
termination_by (c.remaining, 4)

theorem parseFunction_moved {c c' d : Cursor} {g : FunctionDecl} (hc : Within f tail c c')
    (h : (parseFunction c).Yields g d) :
    ∃ d', (parseFunction c').Yields
      ⟨g.name.moved f, g.parameters.map (Ident.moved f), Stmt.movedAll f g.body⟩ d' ∧ Between f tail d d' := by
  obtain ⟨hi, hp, parameters, x, hx, h⟩ := parseFunction_yields.1 h
  have hopen := hc.advance hi
  obtain ⟨x', hx', hxx⟩ := parseParameters_moved (hopen.advance hp) hx
  have h₁ := c.remaining_advance_le
  have h₂ := c.advance.remaining_advance_le
  have h₃ := hx.nearer
  have h₄ := x.remaining_advance_le
  rcases h with ⟨he, value, y, hv, rfl, rfl⟩ | ⟨hb, body, hbody, rfl⟩
  · obtain ⟨y', hv', hy⟩ := parseExpr_moved (hxx.advance he) hv
    refine ⟨_, parseFunction_yields.2 ⟨hc.kind ▸ hi, hopen.kind ▸ hp, _, x', hx',
      .inl ⟨hxx.kind ▸ he, _, y', hv', rfl, ?_⟩⟩, hy.skipSemicolon⟩
    rw [hc.ident hi, hxx.position he]
    simp only [Stmt.movedAll, Stmt.moved, Option.map_some]
  · obtain ⟨d', hbody', hd⟩ := parseBlock_moved (hxx.advance hb).1 hbody
    refine ⟨d', parseFunction_yields.2 ⟨hc.kind ▸ hi, hopen.kind ▸ hp, _, x', hx',
      .inr ⟨hxx.kind ▸ hb, _, hbody', ?_⟩⟩, hd⟩
    rw [hc.ident hi]
termination_by (c.remaining, 1)

end

/-! ## Templates -/

theorem Cursor.Between.isMapperHeader (h : Between f tail c c') (hk : c.kind ≠ .endOfInput) :
    isMapperHeader (c'.ahead.map Token.kind) = isMapperHeader (c.ahead.map Token.kind) := by
  obtain ⟨t, ts, ha, ha', -, htail⟩ := h.exists_cons hk
  have hkinds : ((t :: ts).map (Token.moved f)).map Token.kind = (t :: ts).map Token.kind := List.map_map ..
  rw [ha, ha', ← List.map_cons, List.map_append, List.map_append, hkinds]
  rcases htail with rfl | ⟨-, hlast⟩
  · rfl
  · obtain ⟨u, hu⟩ := Option.ne_none_iff_exists'.1 (mt List.getLast?_eq_none_iff.1 (List.cons_ne_nil t ts))
    have hp : ∀ k : TokenKind, k.isOfHeader = true → (!k.endsStmt) = true := by
      intro k hk
      cases k <;> first | rfl | cases hk
    refine isMapperHeader_append hp ⟨u.kind, List.mem_map_of_mem (List.mem_of_getLast? hu), ?_⟩ _ _
    rw [hlast u hu]
    exact Bool.false_ne_true

theorem parseTopLevel_moved {s : Stmt} (hc : Between f tail c c') (hne : c.kind ≠ .endOfInput)
    (h : (parseTopLevel c).Yields s d) : ∃ d', (parseTopLevel c').Yields (s.moved f) d' ∧ Between f tail d d' := by
  have hin := hc.within hne
  have hheader := hc.isMapperHeader hne
  rcases parseTopLevel_yields.1 h with ⟨⟨hk, hm⟩, g, hg, rfl⟩ | ⟨hk, h⟩ | ⟨hm, hk, h⟩
  · obtain ⟨d', hg', hd⟩ := parseFunction_moved hin hg
    refine ⟨d', parseTopLevel_yields.2 (.inl ⟨⟨hin.kind ▸ hk, hheader ▸ hm⟩, _, hg', ?_⟩), hd⟩
    rw [Stmt.moved]
  · obtain ⟨d', h', hd⟩ := parseImport_moved hin hk h
    exact ⟨d', parseTopLevel_yields.2 (.inr (.inl ⟨hin.kind ▸ hk, h'⟩)), hd⟩
  · obtain ⟨d', h', hd⟩ := parseDeclaration_moved hin h
    exact ⟨d', parseTopLevel_yields.2 (.inr (.inr ⟨by rwa [hin.kind, hheader], hin.kind ▸ hk, h'⟩)), hd⟩

/-- Moved tokens and a tail are read as the moved statements and those of the tail. -/
theorem parseProgram_moved {p q : Program} (hc : Between f tail c c') (h : parseProgram c = .ok p)
    (hq : ∀ passed, parseProgram ⟨passed, tail⟩ = .ok q) : parseProgram c' = .ok (p.map (Stmt.moved f) ++ q) := by
  induction p generalizing c c' with
  | nil =>
    rcases parseProgram_eq_ok.1 h with ⟨hk, -⟩ | ⟨-, s, d, rest, -, -, he⟩
    · have htail := hc.ahead_eq hk
      obtain ⟨passed, ahead⟩ := c'
      obtain rfl : ahead = tail := htail
      exact hq passed
    · cases he
  | cons s p ih =>
    rcases parseProgram_eq_ok.1 h with ⟨-, he⟩ | ⟨hk, s', d, rest, hs, hr, he⟩
    · cases he
    · obtain ⟨rfl, rfl⟩ := List.cons.inj he
      obtain ⟨d', hs', hd⟩ := parseTopLevel_moved hc hk hs
      exact parseProgram_eq_ok.2 (.inr ⟨(hc.within hk).kind ▸ hk, _, d', _, hs', ih hd hr, rfl⟩)

theorem startsStmt_of_yields {s : Stmt} (h : (parseTopLevel c).Yields s d) : c.kind.startsStmt = true := by
  have of_eq : ∀ {k : TokenKind}, c.kind = k → k.startsStmt = true → c.kind.startsStmt = true := fun hk hs => hk ▸ hs
  rcases parseTopLevel_yields.1 h with ⟨⟨hk, -⟩, -⟩ | ⟨hk, -⟩ | ⟨-, -, h⟩
  · exact of_eq hk rfl
  · exact of_eq hk rfl
  rcases parseDeclaration_yields.1 h with ⟨hk, -⟩ | ⟨hk, -⟩ | ⟨-, -, h⟩
  · exact of_eq hk rfl
  · exact of_eq hk rfl
  rcases parseStatement_yields.1 h with ⟨hk, -⟩ | ⟨hk, -⟩ | ⟨hk, -⟩ | ⟨hk, -⟩ | h
  · exact of_eq hk rfl
  · exact of_eq hk rfl
  · exact of_eq hk rfl
  · exact of_eq hk rfl
  · obtain ⟨e, x, he, -⟩ := parseExprStmt_yields.1 h
    exact TokenKind.startsStmt_of_startsExpr (startsExpr_of_yields he)

/-- No template starts with an `else`. -/
theorem kind_of_parseProgram {p : Program} (h : parseProgram c = .ok p) : c.kind ≠ .elseWord := by
  rcases parseProgram_eq_ok.1 h with ⟨he, -⟩ | ⟨-, s, d, rest, hs, -⟩
  · rw [he]
    decide
  · exact (TokenKind.ne_of_startsStmt (startsStmt_of_yields hs)).1

end Statements

theorem compile_eq_ok {source : String} {p : Program} :
    compile source = .ok p ↔ ∃ tokens, tokenize source = .ok tokens ∧ parseProgram (ofList tokens) = .ok p := by
  unfold compile parse
  split
  next e he => simp [he]
  next tokens ht =>
    split
    next e he => simp [ht, he]
    next q hq => simp [ht, hq]

theorem compile_blanks {source : String} (h : ∀ c ∈ source.toList, isBlank c = true) : compile source = .ok [] :=
  compile_eq_ok.2 ⟨_, tokenize_blanks h, parseProgram_eq_ok.2 (.inl ⟨rfl, rfl⟩)⟩

/-- Whether a template has no tokens, or the last one is a semicolon or a closing brace. -/
def EndsStatement (source : String) : Prop :=
  ∃ ts, tokenize source = .ok (ts ++ [Token.endOfInput]) ∧ ∀ t ∈ ts.getLast?, t.kind = .semicolon ∨ t.kind = .rightBrace

section Templates

variable {s₁ s₂ : String} {p₁ p₂ : Program} {f : Position → Position}

/-- The tokens of a template are read as the template, with the positions that they have. -/
theorem movedAll_id {ts : List Token} {p : Program} (hts : ∀ t ∈ ts, t.kind ≠ .endOfInput)
    (h : parseProgram (ofList (ts ++ [Token.endOfInput])) = .ok p) : p.map (Stmt.moved id) = p := by
  have hc : Between id [Token.endOfInput] (ofList (ts ++ [Token.endOfInput])) (ofList (ts ++ [Token.endOfInput])) :=
    ⟨ts, rfl, congrArg (· ++ _) (List.map_id ts).symm, hts, .inl rfl⟩
  have hagain := parseProgram_moved hc h fun passed => parseProgram_eq_ok.2 (.inl ⟨rfl, rfl⟩)
  rw [h, List.append_nil] at hagain
  exact (Except.ok.inj hagain).symm

theorem compile_append (h₁ : compile s₁ = .ok p₁) (h₂ : compile s₂ = .ok p₂) (hends : EndsStatement s₁)
    (hf : ∀ o < s₂.utf8ByteSize, ((LineIndex.ofString s₂).position o).below (s₁.toList.count '\n' + 1) =
      f ((LineIndex.ofString s₂).position o)) :
    compile (s₁ ++ "\n" ++ s₂) = .ok (p₁ ++ p₂.map (Stmt.moved f)) := by
  obtain ⟨_, ht₁, hp₁⟩ := compile_eq_ok.1 h₁
  obtain ⟨_, ht₂, hp₂⟩ := compile_eq_ok.1 h₂
  obtain ⟨ts₁, rfl, hne₁⟩ := tokenize_ends ht₁
  obtain ⟨ts₂, rfl, hne₂⟩ := tokenize_ends ht₂
  have hlower : ∀ passed, Between f [Token.endOfInput] (ofList (ts₂ ++ [Token.endOfInput]))
      ⟨passed, ts₂.map (Token.moved f) ++ [Token.endOfInput]⟩ := fun passed => ⟨ts₂, rfl, rfl, hne₂, .inl rfl⟩
  have hlast : ∀ t ∈ ts₁.getLast?, t.kind.endsStmt = true := by
    obtain ⟨us, hus, hlast⟩ := hends
    obtain rfl := List.append_cancel_right (Except.ok.inj (ht₁.symm.trans hus))
    exact fun t ht => TokenKind.endsStmt_iff.2 (hlast t ht)
  have hupper : Between id (ts₂.map (Token.moved f) ++ [Token.endOfInput]) (ofList (ts₁ ++ [Token.endOfInput]))
      (ofList (ts₁ ++ (ts₂.map (Token.moved f) ++ [Token.endOfInput]))) :=
    ⟨ts₁, rfl, congrArg (· ++ _) (List.map_id ts₁).symm, hne₁,
      .inr ⟨(hlower []).kind_ne (kind_of_parseProgram hp₂), hlast⟩⟩
  refine compile_eq_ok.2 ⟨_, tokenize_below ht₁ ht₂ hf, ?_⟩
  rw [parseProgram_moved hupper hp₁ fun passed => ?_, movedAll_id hne₁ hp₁]
  have hq := parseProgram_moved (hlower passed) hp₂ fun passed => parseProgram_eq_ok.2 (.inl ⟨rfl, rfl⟩)
  rw [hq, List.append_nil]

/-- If a template ends with a statement that is closed, the template and another one below it compile to the statements
of both. The positions of the latter are moved: there are `k` more lines before them, and what stands on the first line
is in the next column. Lines and columns are held to their limit, which is not reached in a text of fewer than 2 ^ 32
bytes. -/
theorem compile_below (h₁ : compile s₁ = .ok p₁) (h₂ : compile s₂ = .ok p₂) (hends : EndsStatement s₁) :
    let k := s₁.toList.count '\n' + 1
    compile (s₁ ++ "\n" ++ s₂) = .ok (p₁ ++ p₂.map (Stmt.moved (Position.below k))) ∧
      ((s₁ ++ "\n" ++ s₂).utf8ByteSize < 2 ^ 32 →
        compile (s₁ ++ "\n" ++ s₂) = .ok (p₁ ++ p₂.map (Stmt.moved (Position.shifted k)))) := by
  intro k
  have hbelow : compile (s₁ ++ "\n" ++ s₂) = .ok (p₁ ++ p₂.map (Stmt.moved (Position.below k))) :=
    compile_append h₁ h₂ hends fun _ _ => rfl
  refine ⟨hbelow, fun hsize => ?_⟩
  have hlimit : s₁.utf8ByteSize + 1 + s₂.utf8ByteSize ≤ LineIndex.limit := by
    rw [String.utf8ByteSize_append, String.utf8ByteSize_append] at hsize
    exact Nat.le_of_lt_succ hsize
  have hupper := count_newline_le s₁.toList
  rw [byteCount_toList] at hupper
  rcases Nat.lt_or_ge (s₂.toList.count '\n') s₂.utf8ByteSize with hlower | hlower
  · refine compile_append h₁ h₂ hends fun o ho => ?_
    rw [LineIndex.ofString_eq]
    have hline := LineIndex.line_position_le s₂.toList o
    have hcolumn := LineIndex.column_position_le (.ofChars s₂.toList) o
    exact Position.below_eq_shifted (by omega) (by omega)
  · -- Only a template of newlines can come to the limit, and it has no statements.
    have hnewlines : s₂.toList = List.replicate (s₂.toList.count '\n') '\n' :=
      eq_replicate_of_count (by rwa [byteCount_toList])
    obtain rfl : p₂ = [] := by
      rw [compile_blanks fun c hc => ?_] at h₂
      · exact (Except.ok.inj h₂).symm
      · rw [hnewlines] at hc
        rw [List.eq_of_mem_replicate hc]
        rfl
    exact hbelow

/-- A comment at the end of a template does not take in what is put below it. -/
theorem comment_compile_below :
    compile ("var a; // one" ++ "\n" ++ "println a\n+ a") = .ok
      [.define ⟨"a", ⟨1, 4⟩⟩ (.literal .null ⟨1, 4⟩),
        .print (.binary .add (.name ⟨"a", ⟨2, 9⟩⟩) (.name ⟨"a", ⟨3, 3⟩⟩) ⟨3, 1⟩)] := by
  have h₁ : compile "var a; // one" = .ok [.define ⟨"a", ⟨1, 4⟩⟩ (.literal .null ⟨1, 4⟩)] := by cbv
  have h₂ : compile "println a\n+ a" = .ok
      [.print (.binary .add (.name ⟨"a", ⟨1, 8⟩⟩) (.name ⟨"a", ⟨2, 3⟩⟩) ⟨2, 1⟩)] := by cbv
  have hends : EndsStatement "var a; // one" := by
    refine ⟨[⟨.varWord, .empty, ⟨1, 0⟩⟩, ⟨.identifier, .text "a", ⟨1, 4⟩⟩, ⟨.semicolon, .empty, ⟨1, 5⟩⟩], by cbv, ?_⟩
    rintro t ⟨⟩
    exact .inl rfl
  exact ((compile_below h₁ h₂ hends).2 (by decide +kernel)).trans (by cbv)

/-- The least text whose lines come to the limit: below 4294967295 newlines a name would be on line 4294967296. -/
theorem name_below_held_to_limit :
    let s := String.ofList (List.replicate 4294967294 '\n')
    let k := s.toList.count '\n' + 1
    compile s = .ok [] ∧ compile "a" = .ok [.expr (.name ⟨"a", ⟨1, 0⟩⟩)] ∧ EndsStatement s ∧
      (s ++ "\n" ++ "a").utf8ByteSize = 2 ^ 32 ∧
      ([.expr (.name ⟨"a", ⟨1, 0⟩⟩)] : Program).map (Stmt.moved (Position.shifted k)) =
        [.expr (.name ⟨"a", ⟨4294967296, 1⟩⟩)] ∧
      compile (s ++ "\n" ++ "a") = .ok [.expr (.name ⟨"a", ⟨4294967295, 1⟩⟩)] := by
  intro s k
  have hchars : s.toList = List.replicate 4294967294 '\n' := String.toList_ofList
  have hblank : ∀ c ∈ s.toList, isBlank c = true := by
    rw [hchars]
    exact List.forall_mem_replicate.2 (.inr rfl)
  have hs : compile s = .ok [] := compile_blanks hblank
  have ha : compile "a" = .ok [.expr (.name ⟨"a", ⟨1, 0⟩⟩)] := by cbv
  have hends : EndsStatement s := ⟨[], tokenize_blanks hblank, fun _ ht => by cases ht⟩
  have hsize : (s ++ "\n" ++ "a").utf8ByteSize = 2 ^ 32 := by
    rw [String.utf8ByteSize_append, String.utf8ByteSize_append, ← byteCount_toList s, hchars, byteCount_replicate]
    rfl
  have hk : k = 4294967295 := by
    show s.toList.count '\n' + 1 = _
    rw [hchars, List.count_replicate_self]
  have hjoined : compile (s ++ "\n" ++ "a") = .ok ([] ++ [.expr (.name ⟨"a", ⟨1, 0⟩⟩)].map
      (Stmt.moved (Position.below k))) := compile_append hs ha hends fun _ _ => rfl
  rw [hk] at hjoined ⊢
  exact ⟨hs, ha, hends, hsize, rfl, hjoined⟩

end Templates

end QueryTemplate
