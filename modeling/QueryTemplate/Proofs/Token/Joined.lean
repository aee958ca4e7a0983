import QueryTemplate.Proofs.Token.Places

/-!
# Texts below each other

A newline between two texts keeps their lexemes apart: only blanks and strings go on behind it, and blanks are skipped
in any case (`tokensFrom_blanks`), while a string goes on to its closing quote whatever comes later. So the tokens of a
text with a newline and another text below it are those of the one, and then those of the other with their positions
moved (`tokenize_below`).
-/

namespace QueryTemplate

open Lexeme

/-- A token with its position moved. -/
def Token.moved (f : Position → Position) (t : Token) : Token := { t with position := f t.position }

/-! ## Blanks -/

theorem front_blank {c : Char} {cs : List Char} (h : isBlank c = true) :
    front c cs = .lexeme (blank (c :: cs.takeWhile isBlank)) (cs.dropWhile isBlank) := by
  unfold front
  rw [if_pos h]

/-- Blanks are skipped, all at once or in parts. -/
theorem tokensFrom_blanks {index : LineIndex} {offset : Nat} {bs cs : List Char} (h : ∀ b ∈ bs, isBlank b = true) :
    tokensFrom index offset (bs ++ cs) = tokensFrom index (offset + byteCount bs) cs := by
  -- Whatever is blank at the front of a text is skipped.
  have front_skipped : ∀ (o : Nat) (ds : List Char), tokensFrom index o ds =
      tokensFrom index (o + byteCount (ds.takeWhile isBlank)) (ds.dropWhile isBlank) := by
    intro o ds
    cases ds with
    | nil => rfl
    | cons d ds =>
      cases hd : isBlank d with
      | true =>
        rw [tokensFrom_lexeme (front_blank hd), List.takeWhile_cons_of_pos hd, List.dropWhile_cons_of_pos hd]
        rfl
      | false =>
        rw [List.takeWhile_cons_of_neg (by simp [hd]), List.dropWhile_cons_of_neg (by simp [hd])]
        rfl
  rw [front_skipped offset, front_skipped (offset + byteCount bs), List.takeWhile_append_of_pos h,
    List.dropWhile_append_of_pos h, byteCount_append, Nat.add_assoc]

/-- Blanks alone are no tokens. -/
theorem tokenize_blanks {source : String} (h : ∀ c ∈ source.toList, isBlank c = true) :
    tokenize source = .ok [Token.endOfInput] := by
  rw [tokenize, ← List.append_nil source.toList, tokensFrom_blanks h, tokensFrom]

/-! ## Pieces before a newline -/

/-- Only blanks and strings have newlines in them. -/
theorem Pattern.starts_of_newline_mem {P : Pattern} {w : List Char} (h : w ∈ P.language) (hn : '\n' ∈ w) :
    ∃ c cs, w = c :: cs ∧ (isBlank c = true ∨ c = '"') := by
  have digits_free : ∀ {v : List Char}, IsDigits v → '\n' ∉ v := fun hv hm => by cases hv.2 _ hm
  have word_free : ∀ {v : List Char}, IsWord v → '\n' ∉ v := by
    rintro v ⟨c, cs, rfl, hc, hcs⟩ hm
    rcases List.mem_cons.1 hm with rfl | hm
    · cases hc
    · cases hcs _ hm
  cases P with
  | blanks =>
    obtain ⟨c, cs, rfl, hc, -⟩ := mem_oneOf_mul_kstar.1 h
    exact ⟨c, cs, rfl, .inl hc⟩
  | comment =>
    obtain ⟨cs, hcs, rfl⟩ := mem_singleton_mul.1 h
    rcases List.mem_append.1 hn with hn | hn
    · exact absurd hn (by decide)
    · cases mem_kstar_oneOf.1 hcs _ hn
  | integer => exact absurd hn (digits_free (mem_digits.1 h))
  | decimal =>
    obtain ⟨_, hwhole, fraction, hf, rfl⟩ := Language.mem_mul.1 h
    obtain ⟨whole, hw, rfl⟩ := mem_mul_singleton.1 hwhole
    rcases List.mem_append.1 hn with hn | hn
    · rcases List.mem_append.1 hn with hn | hn
      · exact absurd hn (digits_free (mem_digits.1 hw))
      · exact absurd hn (by decide)
    · exact absurd hn (digits_free (mem_digits.1 hf))
  | string =>
    obtain ⟨_, hopen, rfl⟩ := mem_mul_singleton.1 h
    obtain ⟨body, hb, rfl⟩ := mem_singleton_mul.1 hopen
    exact ⟨'"', _, rfl, .inr rfl⟩
  | openString =>
    obtain ⟨_, hopen, ending, hending, rfl⟩ := Language.mem_mul.1 h
    obtain ⟨body, hb, rfl⟩ := mem_singleton_mul.1 hopen
    exact ⟨'"', _, rfl, .inr rfl⟩
  | word => exact absurd hn (word_free (mem_name.1 h))
  | column =>
    obtain ⟨_, hname, rfl⟩ := mem_singleton_mul.1 h
    rcases List.mem_append.1 hn with hn | hn
    · exact absurd hn (by decide)
    · exact absurd hn (word_free (mem_name.1 hname))
  | operator kind =>
    cases kind <;> cases h <;> exact absurd hn (by decide)

namespace Piece

variable {index index' : LineIndex} {offset offset' : Nat} {p : Piece} {ps : List Piece} {cs mid rest : List Char}

/-- A string is a string whatever follows. -/
theorem longest_string (h : p.text ∈ Pattern.string.language) (hp : p.pattern = .string) (rest : List Char) :
    p.Longest rest := by
  obtain ⟨pattern, text⟩ := p
  obtain rfl : pattern = .string := hp
  obtain ⟨_, hopen, rfl⟩ := mem_mul_singleton.1 h
  obtain ⟨body, hbody, rfl⟩ := mem_singleton_mul.1 hopen
  have hclosed : body? (body ++ '"' :: rest) = some (body, rest) := by
    rw [body?_items hbody, body?, Option.map_some]
    exact congrArg (fun b => some (b, rest)) (List.append_nil body)
  exact longest_of_front (front_quote_of_some hclosed)

/-- A piece that starts with a blank is blank, and one that starts with a quote is a string. -/
theorem Longest.pattern_eq {c : Char} (h : p.Longest mid) (hp : p.Accepted) (hc : p.text = c :: cs) :
    (isBlank c = true → p.pattern = .blanks) ∧ (c = '"' → p.pattern = .string) := by
  obtain ⟨d, ds, l, htext, hf, rfl⟩ := front_of_longest h hp.closed
  rw [hc, List.cons_append] at htext
  obtain ⟨rfl, -⟩ := List.cons.inj htext
  constructor
  · intro hblank
    rw [front_blank hblank] at hf
    rw [← (Front.lexeme.inj hf).1]
    rfl
  · rintro rfl
    cases hb : body? ds with
    | none =>
      rw [front_quote_of_none hb] at hf
      cases hf
    | some br =>
      rw [front_quote_of_some hb] at hf
      rw [← (Front.lexeme.inj hf).1]
      rfl

/-- A piece that is not blank does not go on behind a newline. -/
theorem Longest.append_newline (h : p.Longest mid) (hp : p.Accepted) (hb : p.pattern ≠ .blanks) (ds : List Char) :
    p.Longest (mid ++ '\n' :: ds) where
  matched := h.matched
  longest P w hw hprefix := by
    rw [← List.append_assoc] at hprefix
    rcases Nat.lt_or_ge (p.text ++ mid).length w.length with hlt | hle
    · -- What is longer than the text before the newline has the newline in it.
      have hnewline : '\n' ∈ w := by
        have hget := hprefix.getElem hlt
        rw [List.getElem_append_right (Nat.le_refl _)] at hget
        simp only [Nat.sub_self, List.getElem_cons_zero] at hget
        exact hget ▸ List.getElem_mem hlt
      obtain ⟨c, cs, rfl, hstart⟩ := Pattern.starts_of_newline_mem hw hnewline
      obtain ⟨d, ds', htext⟩ := List.exists_cons_of_ne_nil (Pattern.ne_nil_of_mem h.matched)
      rw [htext, List.cons_append, List.cons_append, List.cons_prefix_cons] at hprefix
      obtain ⟨rfl, hrest⟩ := hprefix
      obtain ⟨hblank, hquote⟩ := h.pattern_eq hp htext
      rcases hstart with hstart | hstart
      · exact absurd (hblank hstart) hb
      · have hstring := hquote hstart
        refine (longest_string (hstring ▸ h.matched) hstring (mid ++ '\n' :: ds)).longest P _ hw ?_
        rw [htext, List.cons_append, List.cons_prefix_cons, ← List.append_assoc]
        exact ⟨rfl, hrest⟩
    · exact h.longest P w hw (List.prefix_of_prefix_length_le hprefix ⟨_, rfl⟩ hle)

/-- A piece before a newline becomes what it is. -/
theorem Longest.tokensFrom_newline (h : p.Longest mid) (hp : p.Accepted) (ds : List Char) :
    tokensFrom index offset (p.text ++ (mid ++ '\n' :: ds)) =
      (tokensFrom index (offset + byteCount p.text) (mid ++ '\n' :: ds)).map
        ((p.symbol?.map fun s => (⟨s.1, s.2, index.position offset⟩ : Token)).toList ++ ·) := by
  by_cases hb : p.pattern = .blanks
  · have hblank : ∀ c ∈ p.text, isBlank c = true := by
      have hmatched := h.matched
      rw [hb] at hmatched
      obtain ⟨c, cs, hcs, hc⟩ := mem_oneOf_mul_kstar.1 hmatched
      rw [hcs]
      exact List.forall_mem_cons.2 hc
    have hsymbol : p.symbol? = none := by
      rw [symbol?, hb]
    rw [tokensFrom_blanks hblank, hsymbol]
    exact (congrFun Except.map_id _).symm
  · exact tokensFrom_cons (h.append_newline hp hb ds) hp

/-- The tokens of a text with a newline and another text below it are first those of the one. -/
theorem Cut.tokensFrom_newline (h : Cut ps cs rest) (hrest : rest = []) (ha : ∀ p ∈ ps, p.Accepted) (ds : List Char) :
    tokensFrom index offset (cs ++ '\n' :: ds) =
      (tokensFrom index (offset + byteCount cs) ('\n' :: ds)).map (tokens index offset ps ++ ·) := by
  induction h generalizing offset with
  | refl rest =>
    rw [hrest]
    exact (congrFun Except.map_id _).symm
  | cons h _ ih =>
    obtain ⟨hp, hps⟩ := List.forall_mem_cons.1 ha
    rw [List.append_assoc, h.tokensFrom_newline hp, ih hrest hps, byteCount_append, ← Nat.add_assoc, tokens]
    cases tokensFrom index _ _ with
    | error e => rfl
    | ok ts => exact congrArg Except.ok (List.append_assoc _ _ _).symm

/-- Where all positions of a text are moved, so are its tokens. -/
theorem Cut.tokens_moved {f : Position → Position} (h : Cut ps cs rest)
    (hf : ∀ o < byteCount cs, index'.position (offset' + o) = f (index.position (offset + o))) :
    tokens index' offset' ps = (tokens index offset ps).map (Token.moved f) := by
  induction h generalizing offset offset' with
  | refl rest => rfl
  | @cons p ps mid rest h _ ih =>
    have hstart : index'.position offset' = f (index.position offset) := by
      obtain ⟨c, cs, hc⟩ := List.exists_cons_of_ne_nil (Pattern.ne_nil_of_mem h.matched)
      have := c.utf8Size_pos
      exact hf 0 (by rw [hc, List.cons_append, byteCount_cons]; omega)
    have hlater : tokens index' (offset' + byteCount p.text) ps =
        (tokens index (offset + byteCount p.text) ps).map (Token.moved f) := ih fun o ho => by
      rw [Nat.add_assoc, Nat.add_assoc]
      exact hf _ (by rw [byteCount_append]; omega)
    rw [tokens, tokens, hlater, hstart, List.map_append]
    cases p.symbol? <;> rfl

end Piece

open Piece

/-- The tokens of a text with a newline and another text below it are those of both, the later ones moved. -/
theorem tokenize_below {s₁ s₂ : String} {ts₁ ts₂ : List Token} {f : Position → Position}
    (h₁ : tokenize s₁ = .ok (ts₁ ++ [Token.endOfInput])) (h₂ : tokenize s₂ = .ok (ts₂ ++ [Token.endOfInput]))
    (hf : ∀ o < s₂.utf8ByteSize, ((LineIndex.ofString s₂).position o).below (s₁.toList.count '\n' + 1) =
      f ((LineIndex.ofString s₂).position o)) :
    tokenize (s₁ ++ "\n" ++ s₂) = .ok (ts₁ ++ (ts₂.map (Token.moved f) ++ [Token.endOfInput])) := by
  obtain ⟨ps, hps, ha, ht₁⟩ := tokenize_eq_ok h₁
  obtain ⟨qs, hqs, hb, ht₂⟩ := tokenize_eq_ok h₂
  obtain rfl := List.append_cancel_right ht₁
  obtain rfl := List.append_cancel_right ht₂
  have htext : (s₁ ++ "\n" ++ s₂).toList = s₁.toList ++ '\n' :: s₂.toList := by
    rw [String.toList_append, String.toList_append, List.append_assoc]
    rfl
  have hupper : tokens (.ofChars (s₁.toList ++ '\n' :: s₂.toList)) 0 ps = tokens (.ofChars s₁.toList) 0 ps := by
    rw [hps.tokens_moved (f := id) fun o ho => LineIndex.position_append (by rwa [Nat.zero_add])]
    exact List.map_id _
  have hlower : tokens (.ofChars (s₁.toList ++ '\n' :: s₂.toList)) (byteCount s₁.toList + 1) qs =
      (tokens (.ofChars s₂.toList) 0 qs).map (Token.moved f) :=
    hqs.tokens_moved fun o ho => by
      rw [LineIndex.position_below, Nat.zero_add, ← LineIndex.ofString_eq]
      exact hf o (byteCount_toList s₂ ▸ ho)
  have hnewline : ∀ index offset, tokensFrom index offset ('\n' :: s₂.toList) =
      tokensFrom index (offset + 1) s₂.toList := fun index offset =>
    tokensFrom_blanks (List.forall_mem_singleton.2 rfl)
  rw [tokenize, LineIndex.ofString_eq, htext, hps.tokensFrom_newline rfl ha, hnewline, hqs.tokensFrom_eq_ok rfl hb,
    Nat.zero_add, hupper, hlower]
  rfl

end QueryTemplate
