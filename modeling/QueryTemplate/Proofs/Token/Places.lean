import QueryTemplate.Proofs.Token.Lines
import QueryTemplate.Proofs.Token.LongestMatch

/-!
# Places of tokens

A token is placed where its piece of the text starts (`tokenize_places`), and an error of the lexer points to the last
byte of the text, to a character, or to the start of a number (`tokenize_error_points`). The end of the input is the
last token and the only one without a place (`tokenize_ends`).
-/

namespace QueryTemplate

namespace Piece

variable {index : LineIndex} {offset : Nat} {p : Piece} {ps : List Piece} {cs rest : List Char} {t : Token}

/-- No piece becomes the end of the input. -/
theorem symbol?_ne_endOfInput {s : Symbol} (h : p.text ∈ p.pattern.language) (hs : p.symbol? = some s) :
    s.1 ≠ .endOfInput := by
  obtain ⟨pattern, text⟩ := p
  cases pattern with
  | blanks | comment | openString => cases hs
  | integer | decimal | string | column =>
    cases hs
    rintro ⟨⟩
  | word =>
    simp only [symbol?] at hs
    split at hs
    next kind hk =>
      cases hs
      unfold TokenKind.keyword? at hk
      split at hk <;> cases hk <;> rintro ⟨⟩
    next =>
      cases hs
      rintro ⟨⟩
  | operator kind =>
    cases hs
    rintro rfl
    cases h

theorem Cut.kind_ne (h : Cut ps cs rest) : ∀ t ∈ tokens index offset ps, t.kind ≠ .endOfInput := by
  induction h generalizing offset with
  | refl rest => exact List.forall_mem_nil _
  | @cons p ps mid rest h _ ih =>
    refine List.forall_mem_append.2 ⟨fun t ht => ?_, ih⟩
    obtain ⟨s, hs, rfl⟩ := Option.map_eq_some_iff.1 (Option.mem_toList.1 ht)
    exact symbol?_ne_endOfInput h.matched hs

/-- Where a token comes from: the text is cut up to the piece that it stands for. -/
theorem Cut.of_mem_tokens (h : Cut ps cs rest) (ht : t ∈ tokens index offset ps) :
    ∃ (before : List Piece) (p : Piece) (mid : List Char), before <+: ps ∧ Cut before cs (p.text ++ mid) ∧
      p.Longest mid ∧ p.symbol?.isSome = true ∧
      t.position = index.position (offset + byteCount (before.flatMap text)) := by
  induction h generalizing offset with
  | refl rest => cases ht
  | @cons p ps mid rest h _ ih =>
    rcases List.mem_append.1 ht with ht | ht
    · obtain ⟨s, hs, rfl⟩ := Option.map_eq_some_iff.1 (Option.mem_toList.1 ht)
      exact ⟨[], p, mid, List.nil_prefix, .refl _, h, by rw [hs]; rfl, rfl⟩
    · obtain ⟨before, q, mid', hbefore, hcut, hq, hsome, hposition⟩ := ih ht
      refine ⟨p :: before, q, mid', List.cons_prefix_cons.2 ⟨rfl, hbefore⟩, .cons h hcut, hq, hsome, ?_⟩
      rw [hposition, List.flatMap_cons, byteCount_append, Nat.add_assoc]

theorem Cut.text_eq (h : Cut ps cs rest) : cs = ps.flatMap text ++ rest := by
  induction h with
  | refl rest => rfl
  | cons _ _ ih => rw [ih, List.flatMap_cons, List.append_assoc]

end Piece

open Piece

/-- Whether a token starts at a byte: the text is cut up to there, and the longest match is not blank and no comment. -/
def StartsToken (source : String) (offset : Nat) : Prop :=
  ∃ (ps : List Piece) (p : Piece) (rest : List Char), Cut ps source.toList (p.text ++ rest) ∧
    (∀ q ∈ ps, q.Accepted) ∧ p.Longest rest ∧ p.symbol?.isSome = true ∧ offset = byteCount (ps.flatMap text)

/-- Whether a character stands at a byte with which nothing starts: the text is cut up to there and not further. -/
def StrayAt (source : String) (offset : Nat) (c : Char) : Prop :=
  ∃ (ps : List Piece) (rest : List Char), Cut ps source.toList (c :: rest) ∧ (∀ q ∈ ps, q.Accepted) ∧
    (∀ (P : Pattern), ∀ w ∈ P.language, ¬w <+: c :: rest) ∧ offset = byteCount (ps.flatMap text)

/-- Whether an error of the lexer points to a byte: the last one, that of the character, or the start of the number. -/
def LexError.PointsTo (source : String) (offset : Nat) : LexError → Prop
  | unterminatedString _ => offset + 1 = source.utf8ByteSize
  | unexpectedCharacter c _ => StrayAt source offset c
  | numberOutOfRange _ => StartsToken source offset

variable {source : String}

theorem StartsToken.lt {offset : Nat} (h : StartsToken source offset) : offset < source.utf8ByteSize := by
  obtain ⟨ps, p, rest, hcut, -, hp, -, rfl⟩ := h
  obtain ⟨c, cs, hc⟩ := List.exists_cons_of_ne_nil (Pattern.ne_nil_of_mem hp.matched)
  have := c.utf8Size_pos
  rw [← byteCount_toList, hcut.text_eq, hc, byteCount_append, List.cons_append, byteCount_cons]
  omega

theorem LexError.PointsTo.lt {offset : Nat} {e : LexError} (h : e.PointsTo source offset) :
    offset < source.utf8ByteSize := by
  cases e with
  | unterminatedString => exact Nat.lt_of_succ_le (Nat.le_of_eq h)
  | unexpectedCharacter c =>
    obtain ⟨ps, rest, hcut, -, -, rfl⟩ := h
    have := c.utf8Size_pos
    rw [← byteCount_toList, hcut.text_eq, byteCount_append, byteCount_cons]
    omega
  | numberOutOfRange => exact StartsToken.lt h

/-- A text that has tokens is cut to its end. -/
theorem tokenize_eq_ok {tokens : List Token} (h : tokenize source = .ok tokens) :
    ∃ ps, Cut ps source.toList [] ∧ (∀ p ∈ ps, p.Accepted) ∧
      tokens = Piece.tokens (.ofChars source.toList) 0 ps ++ [Token.endOfInput] := by
  rw [tokenize, LineIndex.ofString_eq] at h
  cases exists_ends (.ofChars source.toList) 0 source.toList with
  | cut hc ha =>
    rw [hc.tokensFrom_eq_ok rfl ha] at h
    exact ⟨_, hc, ha, (Except.ok.inj h).symm⟩
  | stuck hc ha he =>
    rw [hc.tokensFrom_eq_error ha he] at h
    cases h

/-- The end of the input is the last token and no other one. -/
theorem tokenize_ends {tokens : List Token} (h : tokenize source = .ok tokens) :
    ∃ ts, tokens = ts ++ [Token.endOfInput] ∧ ∀ t ∈ ts, t.kind ≠ .endOfInput := by
  obtain ⟨ps, hps, -, rfl⟩ := tokenize_eq_ok h
  exact ⟨_, rfl, hps.kind_ne⟩

/-- All tokens but the end of the input are placed where they start. -/
theorem tokenize_places {tokens : List Token} (h : tokenize source = .ok tokens) :
    ∀ t ∈ tokens, t.kind ≠ .endOfInput →
      ∃ offset, StartsToken source offset ∧ t.position = (LineIndex.ofString source).position offset := by
  intro t ht hne
  obtain ⟨ps, hps, ha, rfl⟩ := tokenize_eq_ok h
  rcases List.mem_append.1 ht with ht | ht
  · obtain ⟨before, p, mid, hbefore, hcut, hp, hsome, hposition⟩ := hps.of_mem_tokens ht
    refine ⟨_, ⟨before, p, mid, hcut, fun q hq => ha q (hbefore.subset hq), hp, hsome, rfl⟩, ?_⟩
    rw [hposition, Nat.zero_add, LineIndex.ofString_eq]
  · rw [List.mem_singleton.1 ht] at hne
    exact absurd rfl hne

/-- An error of the lexer has the position of the byte that it points to. -/
theorem tokenize_error_points {e : LexError} (h : tokenize source = .error e) :
    ∃ offset, e.PointsTo source offset ∧ e.position = (LineIndex.ofString source).position offset := by
  rw [tokenize] at h
  cases exists_ends (.ofString source) 0 source.toList with
  | cut hc ha =>
    rw [hc.tokensFrom_eq_ok rfl ha] at h
    cases h
  | @stuck ps rest e' hc ha he =>
    rw [hc.tokensFrom_eq_error ha he] at h
    cases h
    rw [Nat.zero_add] at he
    cases he with
    | openString =>
      refine ⟨source.utf8ByteSize - 1, Nat.sub_add_cancel ?_, rfl⟩
      rw [← byteCount_toList, hc.text_eq, byteCount_append, byteCount_cons]
      have := Char.utf8Size_pos '"'
      omega
    | @outOfRange p rest hp hd hx =>
      have hsome : p.symbol?.isSome = true := by
        rw [symbol?, hd]
        rfl
      exact ⟨_, ⟨ps, p, rest, hc, ha, hp, hsome, rfl⟩, rfl⟩
    | stray hs => exact ⟨_, ⟨ps, _, hc, ha, hs, rfl⟩, rfl⟩

end QueryTemplate
