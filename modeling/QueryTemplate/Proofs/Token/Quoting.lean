import Mathlib
import QueryTemplate.Proofs.Token.Places

/-!
# Quoted text in front of a text

A text in quotes is one string token, whatever stands behind it (`tokenize_quote`): its escapes leave no quote inside it
that closes the string before its end, and none of the characters that end a line. What is behind it has the tokens that
it has alone, at other places.
-/

namespace QueryTemplate

open Quoted Piece

/-! ## The characters of a quoted text -/

namespace Quoted

theorem toList_quote (text : String) : (quote text).toList = '"' :: encode text.toList ++ ['"'] :=
  String.toList_ofList

theorem mem_encodeChar {c d : Char} (h : d ∈ encodeChar c) : d ≠ '\n' ∧ d ≠ '\r' ∧ d ≠ '\t' := by
  have either : ∀ {a b : Char}, a ≠ '\n' ∧ a ≠ '\r' ∧ a ≠ '\t' → b ≠ '\n' ∧ b ≠ '\r' ∧ b ≠ '\t' → d ∈ [a, b] →
      d ≠ '\n' ∧ d ≠ '\r' ∧ d ≠ '\t' := fun ha hb hd => by
    rcases List.mem_pair.1 hd with rfl | rfl
    · exact ha
    · exact hb
  unfold encodeChar at h
  split at h
  case h_6 hline htab hreturn =>
    rw [List.mem_singleton.1 h]
    exact ⟨hline, hreturn, htab⟩
  all_goals exact either (by decide) (by decide) h

/-- A quoted text is written on one line. -/
theorem mem_quote {text : String} {c : Char} (h : c ∈ (quote text).toList) : c ≠ '\n' ∧ c ≠ '\r' ∧ c ≠ '\t' := by
  rw [toList_quote, List.mem_append, List.mem_cons, List.mem_singleton] at h
  rcases h with (rfl | h) | rfl
  · decide
  · obtain ⟨d, -, hd⟩ := List.mem_flatMap.1 h
    exact mem_encodeChar hd
  · decide

end Quoted

/-! ## What a quoted text is cut to -/

namespace Piece

/-- The symbols of the tokens do not depend on where the pieces stand. -/
theorem symbols_tokens (index : LineIndex) (offset : Nat) (ps : List Piece) :
    (tokens index offset ps).map Token.symbol = ps.filterMap symbol? := by
  induction ps generalizing offset with
  | nil => rfl
  | cons p ps ih =>
    rw [tokens, List.map_append, ih, List.filterMap_cons]
    cases p.symbol? <;> rfl

/-- A quoted text as a piece. -/
def quoted (text : String) : Piece := ⟨.string, (quote text).toList⟩

/-- No text of any pattern goes on behind the closing quote, and none that ends there is longer. -/
theorem longest_quoted (text : String) (rest : List Char) : (quoted text).Longest rest := by
  have hfront := Lexeme.front_quote_of_some (body?_encode text.toList rest)
  have hpiece : (Lexeme.quoted (encode text.toList)).piece = quoted text := by
    rw [quoted, toList_quote]
    rfl
  exact hpiece ▸ Lexeme.longest_of_front hfront

/-- A quoted text becomes a string token with that text. -/
theorem symbol?_quoted (text : String) : (quoted text).symbol? = some (.string, .text text) := by
  simp only [quoted, symbol?, toList_quote, List.cons_append, List.drop_succ_cons, List.drop_zero,
    List.dropLast_concat, unescape, String.toList_ofList, decode_encode, String.ofList_toList]

theorem accepted_quoted (text : String) : (quoted text).Accepted := ⟨nofun, nofun⟩

end Piece

/-- The first byte of a text that does not start with a newline is at the start of the first line. -/
theorem LineIndex.position_start {c : Char} (hc : c ≠ '\n') (cs : List Char) :
    (ofChars (c :: cs)).position 0 = ⟨1, 0⟩ := by
  have hopened : (ofChars (c :: cs)).opened 0 = [] := by
    refine List.filter_eq_nil_iff.2 fun o ho => ?_
    have hpos := c.utf8Size_pos
    have hle := (mem_newlineOffsets _ _ (by simpa only [ofChars, newlineOffsets, if_neg hc] using ho)).1
    simp only [decide_eq_true_eq]
    omega
  rw [position_eq, hopened]
  rfl

/-- In front of a text that has tokens a quoted text is the longest match, with both its quotes, and becomes a string
token whose text is the one that was quoted. The tokens behind it are those of the rest in kind and payload. A quoted
text has no newlines, carriage returns and tabs. -/
theorem tokenize_quote (text : String) {rest : String} {ts : List Token} (h : tokenize rest = .ok ts) :
    (quoted text).Longest rest.toList ∧ (quoted text).symbol? = some (.string, .text text) ∧
    (∃ later, tokenize (quote text ++ rest) = .ok (⟨.string, .text text, ⟨1, 0⟩⟩ :: later) ∧
      later.map Token.symbol = ts.map Token.symbol) ∧
    ∀ c ∈ (quote text).toList, c ≠ '\n' ∧ c ≠ '\r' ∧ c ≠ '\t' := by
  have hlongest := longest_quoted text rest.toList
  refine ⟨hlongest, symbol?_quoted text, ?_, fun c hc => mem_quote hc⟩
  obtain ⟨ps, hps, ha, rfl⟩ := tokenize_eq_ok h
  have htext : (quote text ++ rest).toList = (quoted text).text ++ rest.toList := String.toList_append
  have hstart : (LineIndex.ofString (quote text ++ rest)).position 0 = ⟨1, 0⟩ := by
    rw [LineIndex.ofString_eq, htext, quoted, toList_quote]
    exact LineIndex.position_start (by decide) _
  refine ⟨tokens (.ofString (quote text ++ rest)) (0 + byteCount (quoted text).text) ps ++ [Token.endOfInput], ?_, ?_⟩
  · rw [tokenize, htext, tokensFrom_cons hlongest (accepted_quoted text), hps.tokensFrom_eq_ok rfl ha,
      symbol?_quoted, hstart]
    rfl
  · rw [List.map_append, List.map_append, symbols_tokens, symbols_tokens]

/-- A text that ends in a backslash and has quotes in it, in front of another string. -/
theorem tokenize_quote_backslash :
    let text := "say \"a\"\n\\"
    let rest := "+ \"b\""
    let plus : Token := ⟨.plus, .empty, ⟨1, 0⟩⟩
    let b : Token := ⟨.string, .text "b", ⟨1, 2⟩⟩
    tokenize rest = .ok [plus, b, Token.endOfInput] ∧ (quoted text).Longest rest.toList ∧
    (quoted text).symbol? = some (.string, .text text) ∧
    (∃ later, tokenize (quote text ++ rest) = .ok (⟨.string, .text text, ⟨1, 0⟩⟩ :: later) ∧
      later.map Token.symbol = [plus, b, Token.endOfInput].map Token.symbol) ∧
    ∀ c ∈ (quote text).toList, c ≠ '\n' ∧ c ≠ '\r' ∧ c ≠ '\t' := by
  intro text rest plus b
  have h : tokenize rest = .ok [plus, b, Token.endOfInput] := by cbv
  exact ⟨h, tokenize_quote text h⟩

end QueryTemplate
