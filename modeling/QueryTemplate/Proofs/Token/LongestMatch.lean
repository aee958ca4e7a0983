import QueryTemplate.Proofs.Token.Patterns

/-!
# The longest match

A text is cut into pieces, each of them the longest text of a pattern where it stands (`Piece.Cut`). The tokens of a
text are what its pieces become; where the text cannot be cut any further, or a piece becomes nothing, there is an error
at that place (`Piece.Stuck`). This is what `tokenize` does (`tokenize_longest_match`).
-/

namespace QueryTemplate

open Lexeme

/-- A piece of a text, as a text of a pattern. -/
structure Piece where
  pattern : Pattern
  text : List Char
deriving DecidableEq

namespace Piece

/-- No text of any pattern at the front of the piece and the text after it is longer than the piece. -/
structure Longest (p : Piece) (rest : List Char) : Prop where
  matched : p.text ∈ p.pattern.language
  longest : ∀ (P : Pattern), ∀ w ∈ P.language, w <+: p.text ++ rest → w.length ≤ p.text.length

/-- The number of 64 bits nearest to a decimal: the digits before the point and those after it. -/
def number (p : Piece) : Float := decimalValue (p.text.takeWhile isDigit) ((p.text.dropWhile isDigit).drop 1)

/-- The piece is not a string without its closing quote, and not a decimal that is infinite as a number. -/
structure Accepted (p : Piece) : Prop where
  closed : p.pattern ≠ .openString
  finite : p.pattern = .decimal → p.number.isFinite = true

/-- What a piece becomes. Blanks and comments stand between tokens. -/
def symbol? (p : Piece) : Option Symbol :=
  let text := String.ofList p.text
  match p.pattern with
  | .blanks | .comment | .openString => none
  | .integer =>
    let n := digitsValue p.text
    some (.number, if fitsInto 64 n then .integer (Int64.ofNat n) else .bigInteger text)
  | .decimal => some (.number, .decimal p.number)
  | .string => some (.string, .text (Quoted.unescape (String.ofList (p.text.drop 1).dropLast)))
  | .word =>
    match TokenKind.keyword? text with
    | some kind => some (kind, .empty)
    | none => some (.identifier, .text text)
  | .column => some (.identifier, .text text)
  | .operator kind => some (kind, .empty)

/-- The tokens of pieces that start at a byte, each with the position of its start. -/
def tokens (index : LineIndex) (offset : Nat) : List Piece → List Token
  | [] => []
  | p :: ps =>
    (p.symbol?.map fun s => ⟨s.1, s.2, index.position offset⟩).toList ++ tokens index (offset + byteCount p.text) ps

/-- A text is cut into pieces up to some rest of it, each the longest match where it stands. -/
inductive Cut : List Piece → List Char → List Char → Prop
  | refl (rest : List Char) : Cut [] rest rest
  | cons {p : Piece} {ps : List Piece} {mid rest : List Char} (h : p.Longest mid) (hs : Cut ps mid rest) :
    Cut (p :: ps) (p.text ++ mid) rest

/-- Why a text that starts at a byte cannot be cut. -/
inductive Stuck (index : LineIndex) (offset : Nat) : List Char → LexError → Prop
  /-- No closing quote follows. -/
  | openString {cs : List Char} (h : ∀ w ∈ Pattern.string.language, ¬w <+: '"' :: cs) :
    Stuck index offset ('"' :: cs) (.unterminatedString index.lastPosition)
  | outOfRange {p : Piece} {rest : List Char} (h : p.Longest rest) (hp : p.pattern = .decimal)
    (hx : p.number.isFinite = false) :
    Stuck index offset (p.text ++ rest) (.numberOutOfRange (index.position offset))
  /-- No text of any pattern stands there. -/
  | stray {c : Char} {cs : List Char} (h : ∀ (P : Pattern), ∀ w ∈ P.language, ¬w <+: c :: cs) :
    Stuck index offset (c :: cs) (.unexpectedCharacter c (index.position offset))

end Piece

/-! ## Lexemes as pieces -/

theorem Pattern.ne_nil_of_mem {P : Pattern} {w : List Char} (h : w ∈ P.language) : w ≠ [] := by
  cases P with
  | blanks =>
    obtain ⟨c, cs, rfl, -⟩ := mem_oneOf_mul_kstar.1 h
    exact List.cons_ne_nil _ _
  | comment | column =>
    obtain ⟨cs, -, rfl⟩ := mem_singleton_mul.1 h
    exact List.cons_ne_nil _ _
  | integer => exact (mem_digits.1 h).1
  | decimal =>
    obtain ⟨_, -, fraction, hf, rfl⟩ := Language.mem_mul.1 h
    exact List.append_ne_nil_of_right_ne_nil _ (mem_digits.1 hf).1
  | string =>
    obtain ⟨cs, -, rfl⟩ := mem_mul_singleton.1 h
    exact List.append_ne_nil_of_right_ne_nil _ (List.cons_ne_nil _ _)
  | openString =>
    obtain ⟨_, hopen, ending, -, rfl⟩ := Language.mem_mul.1 h
    obtain ⟨cs, -, rfl⟩ := mem_singleton_mul.1 hopen
    exact List.cons_ne_nil _ _
  | word =>
    obtain ⟨c, cs, rfl, -⟩ := mem_name.1 h
    exact List.cons_ne_nil _ _
  | operator kind =>
    cases kind <;> cases h <;> exact List.cons_ne_nil _ _

namespace Lexeme

/-- A lexeme as a text of its pattern. -/
def piece (l : Lexeme) : Piece := ⟨l.pattern, l.spelling⟩

variable {index : LineIndex} {offset : Nat} {c : Char} {cs rest : List Char} {l : Lexeme}

/-- What is cut off a text is the longest match. -/
theorem longest_of_front (h : front c cs = .lexeme l rest) : l.piece.Longest rest where
  matched := (front_formed h).mem_language
  longest P w hw hprefix := by
    obtain ⟨r, hr⟩ := hprefix
    have hcovered := front_covers hw (hr.trans (spelling_append_rest h))
    rw [h] at hcovered
    cases hcovered with
    | lexeme hle _ => exact hle

/-- The longest match is what is cut off a text. -/
theorem front_of_longest {p : Piece} (h : p.Longest rest) (hp : p.pattern ≠ .openString) :
    ∃ c cs l, p.text ++ rest = c :: cs ∧ front c cs = .lexeme l rest ∧ l.piece = p := by
  obtain ⟨d, ds, hd⟩ := List.exists_cons_of_ne_nil (Pattern.ne_nil_of_mem h.matched)
  have htext : p.text ++ rest = d :: (ds ++ rest) := by rw [hd, List.cons_append]
  have hcovered := front_covers h.matched htext
  cases hf : front d (ds ++ rest) with
  | stray e =>
    rw [hf] at hcovered
    cases hcovered
  | openQuote =>
    rw [hf] at hcovered
    cases hcovered with
    | openQuote he => exact absurd he hp
  | lexeme l r =>
    rw [hf] at hcovered
    cases hcovered with
    | lexeme hle heq =>
      have hspelling := spelling_append_rest hf
      have hge := h.longest l.pattern l.spelling (front_formed hf).mem_language ⟨r, hspelling.trans htext.symm⟩
      have hlength := Nat.le_antisymm hge hle
      obtain ⟨hsame, rfl⟩ := List.append_inj (hspelling.trans htext.symm) hlength
      refine ⟨d, ds ++ r, l, htext, hf, ?_⟩
      rw [piece, heq hlength, hsame]

/-- The parts of a decimal, from its text. -/
theorem number_decimal {whole fraction : List Char} (h : (Lexeme.decimal whole fraction).Formed) :
    (Lexeme.decimal whole fraction).piece.number = decimalValue whole fraction := by
  have hdot : HeadNot isDigit ('.' :: fraction) := by
    intro x hx
    cases hx
    rfl
  simp only [Piece.number, piece, spelling, hdot.takeWhile h.1.2, hdot.dropWhile h.1.2, List.drop_one, List.tail_cons]

/-- What a lexeme means is what its piece becomes. -/
inductive Becomes (p : Piece) : Meaning → Prop
  | skipped (ha : p.Accepted) (hs : p.symbol? = none) : Becomes p .skipped
  | token {kind : TokenKind} {payload : Payload} (ha : p.Accepted) (hs : p.symbol? = some (kind, payload)) :
    Becomes p (.token kind payload)
  | outOfRange (hp : p.pattern = .decimal) (hx : p.number.isFinite = false) : Becomes p .outOfRange

theorem becomes_meaning (h : l.Formed) : Becomes l.piece l.meaning := by
  have accepted : l.pattern ≠ .openString → l.pattern ≠ .decimal → l.piece.Accepted := fun h₁ h₂ =>
    ⟨h₁, fun hd => absurd hd h₂⟩
  cases l with
  | blank cs | comment cs => exact .skipped (accepted (by rintro ⟨⟩) (by rintro ⟨⟩)) rfl
  | integer digits => exact .token (accepted (by rintro ⟨⟩) (by rintro ⟨⟩)) rfl
  | decimal whole fraction =>
    have hn := number_decimal h
    simp only [meaning]
    split
    next hx => exact .token ⟨by rintro ⟨⟩, fun _ => hn ▸ hx⟩ (by rw [← hn]; rfl)
    next hx => exact .outOfRange rfl (by rw [hn]; exact Bool.eq_false_iff.2 hx)
  | quoted body =>
    refine .token (accepted (by rintro ⟨⟩) (by rintro ⟨⟩)) ?_
    simp [Piece.symbol?, piece, pattern, spelling, Quoted.unescape]
  | word cs =>
    have hs : (word cs).piece.symbol? = match TokenKind.keyword? (String.ofList cs) with
      | some kind => some (kind, .empty)
      | none => some (.identifier, .text (String.ofList cs)) := rfl
    simp only [meaning]
    cases hk : TokenKind.keyword? (String.ofList cs) with
    | some kind => exact .token (accepted (by rintro ⟨⟩) (by rintro ⟨⟩)) (by rw [hs, hk])
    | none => exact .token (accepted (by rintro ⟨⟩) (by rintro ⟨⟩)) (by rw [hs, hk])
  | column cs | operator kind cs => exact .token (accepted (by rintro ⟨⟩) (by rintro ⟨⟩)) rfl

end Lexeme

/-! ## Texts as pieces -/

namespace Piece

variable {index : LineIndex} {offset : Nat} {cs rest : List Char}

theorem Longest.unique {p q : Piece} {mid : List Char} (h : p.Longest rest) (h' : q.Longest mid)
    (ht : p.text ++ rest = q.text ++ mid) (hp : p.Accepted) (hq : q.Accepted) : p = q ∧ rest = mid := by
  obtain ⟨c, cs, l, hl, hf, rfl⟩ := front_of_longest h hp.closed
  obtain ⟨c', cs', l', hl', hf', rfl⟩ := front_of_longest h' hq.closed
  obtain ⟨rfl, rfl⟩ := List.cons.inj (hl.symm.trans (ht.trans hl'))
  cases hf.symm.trans hf'
  exact ⟨rfl, rfl⟩

/-- There is one way to cut a text. -/
theorem Cut.unique {ps qs : List Piece} {ds : List Char} (h : Cut ps cs []) (h' : Cut qs ds []) (he : cs = ds)
    (hps : ∀ p ∈ ps, p.Accepted) (hqs : ∀ q ∈ qs, q.Accepted) : ps = qs := by
  have ne_nil : ∀ {p : Piece} {mid : List Char}, p.Longest mid → [] ≠ p.text ++ mid := fun hp he =>
    Pattern.ne_nil_of_mem hp.matched (List.append_eq_nil_iff.1 he.symm).1
  induction ps generalizing cs ds qs with
  | nil =>
    cases h
    cases h' with
    | refl => rfl
    | cons hq _ => exact absurd he (ne_nil hq)
  | cons p ps ih =>
    cases h with
    | cons hp hrest =>
      cases h' with
      | refl => exact absurd he.symm (ne_nil hp)
      | cons hq hrest' =>
        obtain ⟨ha, hps'⟩ := List.forall_mem_cons.1 hps
        obtain ⟨ha', hqs'⟩ := List.forall_mem_cons.1 hqs
        obtain ⟨rfl, rfl⟩ := hp.unique hq he ha ha'
        rw [ih hrest hrest' rfl hps' hqs']

theorem tokensFrom_cons {p : Piece} (h : p.Longest rest) (hp : p.Accepted) :
    tokensFrom index offset (p.text ++ rest) =
      (tokensFrom index (offset + byteCount p.text) rest).map
        ((p.symbol?.map fun s => (⟨s.1, s.2, index.position offset⟩ : Token)).toList ++ ·) := by
  obtain ⟨c, cs, l, htext, hf, rfl⟩ := front_of_longest h hp.closed
  have hbecomes := becomes_meaning (front_formed hf)
  rw [htext, tokensFrom_lexeme hf]
  generalize l.meaning = meaning at hbecomes
  cases hbecomes with
  | skipped _ hs =>
    rw [hs]
    exact (congrFun Except.map_id _).symm
  | token _ hs =>
    rw [hs]
    rfl
  | outOfRange hd hx => exact absurd (hp.finite hd) (by rw [hx]; decide)

/-- A text that is cut to its end has the tokens of its pieces. -/
theorem Cut.tokensFrom_eq_ok {ps : List Piece} (h : Cut ps cs rest) (hrest : rest = []) (ha : ∀ p ∈ ps, p.Accepted) :
    tokensFrom index offset cs = .ok (tokens index offset ps ++ [Token.endOfInput]) := by
  induction h generalizing offset with
  | refl rest =>
    rw [hrest, tokensFrom]
    rfl
  | cons h _ ih =>
    obtain ⟨hp, hps⟩ := List.forall_mem_cons.1 ha
    rw [tokensFrom_cons h hp, ih hrest hps, tokens, List.append_assoc]
    rfl

/-- Where a text gets stuck there is an error. -/
theorem Stuck.tokensFrom_eq_error {e : LexError} (h : Stuck index offset cs e) :
    tokensFrom index offset cs = .error e := by
  cases h with
  | @openString cs h =>
    cases hb : body? cs with
    | none => exact tokensFrom_openQuote (front_quote_of_none hb)
    | some br =>
      have hf := front_quote_of_some hb
      exact absurd ⟨br.2, spelling_append_rest hf⟩ (h _ (front_formed hf).mem_language)
  | @outOfRange p rest h hp hx =>
    obtain ⟨c, cs, l, htext, hf, rfl⟩ := front_of_longest h (by rw [hp]; decide)
    have hbecomes := becomes_meaning (front_formed hf)
    rw [htext, tokensFrom_lexeme hf]
    have refused : ¬l.piece.Accepted := fun ha => absurd (ha.finite hp) (by rw [hx]; decide)
    generalize l.meaning = meaning at hbecomes
    cases hbecomes with
    | skipped ha _ | token ha _ => exact absurd ha refused
    | outOfRange => rfl
  | @stray c cs h =>
    cases hf : front c cs with
    | lexeme l rest => exact absurd ⟨rest, spelling_append_rest hf⟩ (h _ _ (front_formed hf).mem_language)
    | openQuote =>
      obtain ⟨rfl, -⟩ := front_openQuote hf
      have hquote : ['"'] ∈ Pattern.openString.language :=
        Language.mem_mul.2 ⟨['"'], mem_singleton_mul.2 ⟨[], nil_mem_stringItems, rfl⟩, [], .inl rfl, rfl⟩
      exact absurd ⟨cs, rfl⟩ (h _ _ hquote)
    | stray d => rw [tokensFrom_stray hf, front_stray hf]

theorem Cut.tokensFrom_eq_error {ps : List Piece} {e : LexError} (h : Cut ps cs rest) (ha : ∀ p ∈ ps, p.Accepted)
    (he : Stuck index (offset + byteCount (ps.flatMap text)) rest e) : tokensFrom index offset cs = .error e := by
  induction h generalizing offset with
  | refl rest => exact he.tokensFrom_eq_error
  | cons h _ ih =>
    obtain ⟨hp, hps⟩ := List.forall_mem_cons.1 ha
    rw [List.flatMap_cons, byteCount_append, ← Nat.add_assoc] at he
    rw [tokensFrom_cons h hp, ih hps he]
    rfl

/-- How the cutting of a text ends. -/
inductive Ends (index : LineIndex) (offset : Nat) (cs : List Char) : Prop
  | cut {ps : List Piece} (hc : Cut ps cs []) (ha : ∀ p ∈ ps, p.Accepted)
  | stuck {ps : List Piece} {rest : List Char} {e : LexError} (hc : Cut ps cs rest) (ha : ∀ p ∈ ps, p.Accepted)
    (he : Stuck index (offset + byteCount (ps.flatMap text)) rest e)

theorem Stuck.ends {e : LexError} (h : Stuck index offset cs e) : Ends index offset cs :=
  .stuck (.refl cs) (List.forall_mem_nil _) h

theorem Ends.cons {p : Piece} (h : Ends index (offset + byteCount p.text) rest) (hp : p.Longest rest)
    (ha : p.Accepted) : Ends index offset (p.text ++ rest) := by
  cases h with
  | cut hc hps => exact .cut (.cons hp hc) (List.forall_mem_cons.2 ⟨ha, hps⟩)
  | stuck hc hps he =>
    rw [Nat.add_assoc, ← byteCount_append, ← List.flatMap_cons] at he
    exact .stuck (.cons hp hc) (List.forall_mem_cons.2 ⟨ha, hps⟩) he

/-- Every text is cut to its end, or gets stuck. -/
theorem exists_ends (index : LineIndex) (offset : Nat) (cs : List Char) : Ends index offset cs := by
  match cs with
  | [] => exact .cut (.refl []) (List.forall_mem_nil _)
  | c :: cs =>
    have covered : ∀ {P : Pattern} {w : List Char}, w ∈ P.language → w <+: c :: cs → P.Covered w (front c cs) :=
      fun hw ⟨_, hrest⟩ => front_covers hw hrest
    cases hf : front c cs with
    | openQuote =>
      obtain ⟨rfl, hb⟩ := front_openQuote hf
      refine Stuck.ends (.openString fun w hw hprefix => ?_)
      have hcovered := covered hw hprefix
      rw [hf] at hcovered
      cases hcovered with
      | openQuote he => cases he
    | stray d =>
      refine Stuck.ends (.stray fun P w hw hprefix => ?_)
      have hcovered := covered hw hprefix
      rw [hf] at hcovered
      cases hcovered
    | lexeme l rest =>
      have hlt : rest.length < cs.length + 1 := length_rest_lt hf
      have hlongest := longest_of_front hf
      rw [← spelling_append_rest hf]
      have hrest := exists_ends index (offset + byteCount l.spelling) rest
      have hbecomes := becomes_meaning (front_formed hf)
      generalize l.meaning = meaning at hbecomes
      cases hbecomes with
      | skipped ha _ | token ha _ => exact hrest.cons hlongest ha
      | outOfRange hp hx => exact (Stuck.outOfRange hlongest hp hx).ends
termination_by cs.length

end Piece

open Piece

/-- A text has tokens exactly if it is cut to its end into pieces, each the longest text of a pattern where it stands,
and none of them a string without its closing quote or an infinite decimal. The tokens are what the pieces become, in
order, each with the position of its start, and the end of the input. Otherwise the error is the one of the place up to
which the text is cut into such pieces and not further. -/
theorem tokenize_longest_match (source : String) :
    (∀ ts, tokenize source = .ok ts ↔
      ∃ ps, Cut ps source.toList [] ∧ (∀ p ∈ ps, p.Accepted) ∧
        ts = tokens (.ofString source) 0 ps ++ [Token.endOfInput]) ∧
    ∀ e, tokenize source = .error e ↔
      ∃ ps rest, Cut ps source.toList rest ∧ (∀ p ∈ ps, p.Accepted) ∧
        Stuck (.ofString source) (byteCount (ps.flatMap text)) rest e := by
  have hstuck : ∀ {ps rest e}, Cut ps source.toList rest → (∀ p ∈ ps, p.Accepted) →
      Stuck (.ofString source) (byteCount (ps.flatMap text)) rest e → tokenize source = .error e := fun hc ha he =>
    hc.tokensFrom_eq_error ha (by rwa [Nat.zero_add])
  have hok : ∀ {ps}, Cut ps source.toList [] → (∀ p ∈ ps, p.Accepted) →
      tokenize source = .ok (tokens (.ofString source) 0 ps ++ [Token.endOfInput]) := fun hc ha =>
    hc.tokensFrom_eq_ok rfl ha
  refine ⟨fun ts => ⟨fun h => ?_, fun ⟨ps, hc, ha, ht⟩ => ht ▸ hok hc ha⟩,
    fun e => ⟨fun h => ?_, fun ⟨ps, rest, hc, ha, he⟩ => hstuck hc ha he⟩⟩
  · cases exists_ends (.ofString source) 0 source.toList with
    | cut hc ha =>
      rw [hok hc ha] at h
      cases h
      exact ⟨_, hc, ha, rfl⟩
    | stuck hc ha he =>
      rw [Nat.zero_add] at he
      rw [hstuck hc ha he] at h
      cases h
  · cases exists_ends (.ofString source) 0 source.toList with
    | cut hc ha =>
      rw [hok hc ha] at h
      cases h
    | stuck hc ha he =>
      rw [Nat.zero_add] at he
      rw [hstuck hc ha he] at h
      cases h
      exact ⟨_, _, hc, ha, he⟩

end QueryTemplate
