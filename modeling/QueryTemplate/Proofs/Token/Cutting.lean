import QueryTemplate.Token.Lexer
import QueryTemplate.Proofs.Tree.Symbols

/-!
# Cutting a text

`Cuts text ss rest` says that the text is read as the symbols `ss` up to `rest`. Texts are put together at places where
no lexeme can go on: a name or number ends where its next character cannot be a part of it (`Stops`). For each sort of
lexeme one lemma says after which text it is cut off (`cuts_word`, `cuts_integer`, …).

The other way round, `Symbol.Lexed` says what symbols the tokens of a text have (`tokenize_lexed`).
-/

namespace QueryTemplate

/-- A text is read as symbols up to some rest of it. -/
inductive Cuts : List Char → List Symbol → List Char → Prop
  | refl (rest : List Char) : Cuts rest [] rest
  | skip {c cs l mid ss rest} (h : Lexeme.front c cs = .lexeme l mid) (hl : l.meaning = .skipped)
    (hm : Cuts mid ss rest) : Cuts (c :: cs) ss rest
  | token {c cs l mid kind payload ss rest} (h : Lexeme.front c cs = .lexeme l mid)
    (hl : l.meaning = .token kind payload) (hm : Cuts mid ss rest) : Cuts (c :: cs) ((kind, payload) :: ss) rest

theorem Cuts.trans {text mid rest : List Char} {ss ss' : List Symbol} (h : Cuts text ss mid) (h' : Cuts mid ss' rest) :
    Cuts text (ss ++ ss') rest := by
  induction h with
  | refl => exact h'
  | skip h hl _ ih => exact .skip h hl (ih h')
  | token h hl _ ih => exact .token h hl (ih h')

/-- A text that is read to its end has tokens with the symbols that it is read as. -/
theorem Cuts.tokensFrom {text : List Char} {ss : List Symbol} (h : Cuts text ss []) (index : LineIndex)
    (offset : Nat) :
    ∃ ts, tokensFrom index offset text = .ok (ts ++ [Token.endOfInput]) ∧ ts.map Token.symbol = ss := by
  generalize hr : ([] : List Char) = rest at h
  induction h generalizing offset with
  | refl =>
    subst hr
    exact ⟨[], by rw [QueryTemplate.tokensFrom]; rfl, rfl⟩
  | @skip c cs l mid ss rest h hl _ ih =>
    obtain ⟨ts, ht, hs⟩ := ih (offset + l.size) hr
    refine ⟨ts, ?_, hs⟩
    rw [QueryTemplate.tokensFrom]
    split
    next l' rest' h' =>
      rw [h] at h'
      cases h'
      simp only [hl, ht]
    next h' => rw [h] at h'; cases h'
    next h' => rw [h] at h'; cases h'
  | @token c cs l mid kind payload ss rest h hl _ ih =>
    obtain ⟨ts, ht, hs⟩ := ih (offset + l.size) hr
    refine ⟨⟨kind, payload, index.position offset⟩ :: ts, ?_, by rw [List.map_cons, hs]; rfl⟩
    rw [QueryTemplate.tokensFrom]
    split
    next l' rest' h' =>
      rw [h] at h'
      cases h'
      simp only [hl, ht]
      rfl
    next h' => rw [h] at h'; cases h'
    next h' => rw [h] at h'; cases h'

/-! ## Where lexemes end -/

/-- A text does not start with a character of a class. -/
def HeadNot (p : Char → Bool) (rest : List Char) : Prop := ∀ c ∈ rest.head?, p c = false

/-- No name or number goes on in a text. -/
def Stops (rest : List Char) : Prop := HeadNot isWordPart rest ∧ Lexeme.fraction? rest = none

section Classes

variable {p : Char → Bool} {c : Char} {cs rest : List Char}

theorem HeadNot.takeWhile (h : HeadNot p rest) (hc : ∀ c ∈ cs, p c = true) : (cs ++ rest).takeWhile p = cs := by
  rw [List.takeWhile_append_of_pos hc]
  cases rest with
  | nil => simp
  | cons d ds => simp [h d rfl]

theorem HeadNot.dropWhile (h : HeadNot p rest) (hc : ∀ c ∈ cs, p c = true) : (cs ++ rest).dropWhile p = rest := by
  rw [List.dropWhile_append_of_pos hc]
  cases rest with
  | nil => rfl
  | cons d ds => simp [h d rfl]

theorem HeadNot.mono {q : Char → Bool} (h : HeadNot p rest) (hq : ∀ c, q c = true → p c = true) : HeadNot q rest := by
  intro c hc
  cases hb : q c with
  | false => rfl
  | true => exact absurd (hq c hb) (by rw [h c hc]; decide)

theorem isBlank_iff : isBlank c = true ↔ c = ' ' ∨ c = '\t' ∨ c = '\r' ∨ c = '\n' := by
  simp [isBlank, or_assoc]

theorem isBlank_of_isWordPart (h : isWordPart c = true) : isBlank c = false := by
  cases hb : isBlank c with
  | false => rfl
  | true => rcases isBlank_iff.1 hb with rfl | rfl | rfl | rfl <;> cases h

theorem isDigit_of_isWordStart (h : isWordStart c = true) : isDigit c = false := by
  cases hd : isDigit c with
  | false => rfl
  | true =>
    simp only [isDigit, isWordStart, Bool.and_eq_true, Bool.or_eq_true, decide_eq_true_eq, beq_iff_eq, Char.le_def,
      UInt32.le_iff_toNat_le] at h hd
    rcases h with (h | h) | rfl
    · have h₁ := h.1
      have h₂ := hd.2
      simp at h₁ h₂
      omega
    · have h₁ := h.1
      have h₂ := hd.2
      simp at h₁ h₂
      omega
    · exact absurd hd (by decide)

theorem isWordPart_of_isWordStart (h : isWordStart c = true) : isWordPart c = true := by simp [isWordPart, h]

theorem isWordPart_of_isDigit (h : isDigit c = true) : isWordPart c = true := by simp [isWordPart, h]

end Classes

/-! ## Lexemes of each sort -/

/-- A name as it is cut from a text: it starts with a letter. -/
def IsWord (cs : List Char) : Prop := ∃ c ds, cs = c :: ds ∧ isWordStart c = true ∧ ∀ d ∈ ds, isWordPart d = true

/-- The digits of a number. -/
def IsDigits (cs : List Char) : Prop := cs ≠ [] ∧ ∀ c ∈ cs, isDigit c = true

section Lexemes

open Lexeme

variable {cs rest : List Char}

theorem cuts_blank {c : Char} (hc : ∀ d ∈ c :: cs, isBlank d = true) (hr : HeadNot isBlank rest) :
    Cuts ((c :: cs) ++ rest) [] rest := by
  have hcs : ∀ d ∈ cs, isBlank d = true := fun d hd => hc d (List.mem_cons_of_mem _ hd)
  rw [List.cons_append]
  refine .skip (l := blank (c :: cs)) ?_ rfl (.refl rest)
  unfold front
  rw [if_pos (hc c List.mem_cons_self), hr.takeWhile hcs, hr.dropWhile hcs]

theorem front_word (h : IsWord cs) (hr : HeadNot isWordPart rest) :
    ∃ c ds, cs ++ rest = c :: ds ∧ front c ds = .lexeme (word cs) rest := by
  obtain ⟨c, ds, rfl, hc, hds⟩ := h
  refine ⟨c, ds ++ rest, rfl, ?_⟩
  unfold front
  rw [if_neg (by rw [isBlank_of_isWordPart (isWordPart_of_isWordStart hc)]; decide),
    if_neg (by rw [isDigit_of_isWordStart hc]; decide), if_pos hc, hr.takeWhile hds, hr.dropWhile hds]

/-- A reserved word. -/
theorem cuts_keyword {k : TokenKind} (h : IsWord cs) (hk : TokenKind.keyword? (String.ofList cs) = some k)
    (hr : HeadNot isWordPart rest) : Cuts (cs ++ rest) [k.bare] rest := by
  obtain ⟨c, ds, he, hf⟩ := front_word h hr
  rw [he]
  exact .token hf (by simp [meaning, hk]) (.refl rest)

theorem cuts_word (h : IsWord cs) (hk : TokenKind.keyword? (String.ofList cs) = none) (hr : HeadNot isWordPart rest) :
    Cuts (cs ++ rest) [(.identifier, .text (String.ofList cs))] rest := by
  obtain ⟨c, ds, he, hf⟩ := front_word h hr
  rw [he]
  exact .token hf (by simp [meaning, hk]) (.refl rest)

theorem cuts_column (h : IsWord cs) (hr : HeadNot isWordPart rest) :
    Cuts ('#' :: cs ++ rest) [(.identifier, .text (String.ofList ('#' :: cs)))] rest := by
  obtain ⟨c, ds, rfl, hc, hds⟩ := h
  rw [List.cons_append, List.cons_append]
  refine .token (l := column (c :: ds)) ?_ rfl (.refl rest)
  unfold front
  rw [if_neg (by decide), if_neg (by decide), if_neg (by decide)]
  show (if isWordStart c = true then
      Front.lexeme (column (c :: (ds ++ rest).takeWhile isWordPart)) ((ds ++ rest).dropWhile isWordPart)
    else .stray '#') = _
  rw [if_pos hc, hr.takeWhile hds, hr.dropWhile hds]

theorem cuts_integer (h : IsDigits cs) (hr : HeadNot isDigit rest) (hf : fraction? rest = none) :
    Cuts (cs ++ rest) [(.number, integerPayload cs)] rest := by
  obtain ⟨hne, hds⟩ := h
  cases cs with
  | nil => exact absurd rfl hne
  | cons c ds =>
    have hc := hds c List.mem_cons_self
    have hds : ∀ d ∈ ds, isDigit d = true := fun d hd => hds d (List.mem_cons_of_mem _ hd)
    rw [List.cons_append]
    refine .token (l := integer (c :: ds)) ?_ rfl (.refl rest)
    unfold front
    rw [if_neg (by rw [isBlank_of_isWordPart (isWordPart_of_isDigit hc)]; decide), if_pos hc,
      hr.takeWhile hds, hr.dropWhile hds, hf]

theorem cuts_decimal {whole fraction : List Char} (hw : IsDigits whole) (hf : IsDigits fraction)
    (hr : HeadNot isDigit rest) (hx : (decimalValue whole fraction).isFinite = true) :
    Cuts (whole ++ '.' :: fraction ++ rest) [(.number, .decimal (decimalValue whole fraction))] rest := by
  obtain ⟨hwne, hws⟩ := hw
  obtain ⟨hfne, hfs⟩ := hf
  obtain ⟨c, ds, rfl⟩ := List.exists_cons_of_ne_nil hwne
  obtain ⟨d, es, rfl⟩ := List.exists_cons_of_ne_nil hfne
  have hc := hws c List.mem_cons_self
  have hds : ∀ x ∈ ds, isDigit x = true := fun x hx => hws x (List.mem_cons_of_mem _ hx)
  have hd := hfs d List.mem_cons_self
  have hes : ∀ x ∈ es, isDigit x = true := fun x hx => hfs x (List.mem_cons_of_mem _ hx)
  have hdot : HeadNot isDigit ('.' :: (d :: es ++ rest)) := by
    rintro x hx
    cases hx
    rfl
  have hfrac : fraction? ('.' :: (d :: es ++ rest)) = some (d :: es, rest) := by
    simp only [fraction?, List.cons_append, hd, ↓reduceIte, hr.takeWhile hes, hr.dropWhile hes]
  have htext : c :: ds ++ '.' :: d :: es ++ rest = c :: (ds ++ '.' :: (d :: es ++ rest)) := by simp
  rw [htext]
  refine .token (l := decimal (c :: ds) (d :: es)) ?_ (by simp [meaning, hx]) (.refl rest)
  unfold front
  rw [if_neg (by rw [isBlank_of_isWordPart (isWordPart_of_isDigit hc)]; decide), if_pos hc,
    hdot.takeWhile hds, hdot.dropWhile hds, hfrac]

theorem body?_encode (cs rest : List Char) :
    body? (Quoted.encode cs ++ '"' :: rest) = some (Quoted.encode cs, rest) := by
  induction cs with
  | nil => rfl
  | cons c cs ih =>
    have hstep : ∀ text, body? text = some (Quoted.encode cs, rest) →
        body? (Quoted.encodeChar c ++ text) = some (Quoted.encodeChar c ++ Quoted.encode cs, rest) := by
      intro text h
      unfold Quoted.encodeChar
      split
      case h_6 h₁ h₂ _ _ _ =>
        rw [List.singleton_append, List.singleton_append, body?, h]
        · rfl
        · exact h₂
        · exact fun _ _ h => absurd h h₁
      all_goals
        simp only [List.cons_append, List.nil_append, body?, h]
        rfl
    rw [Quoted.encode, List.flatMap_cons, List.append_assoc]
    exact hstep _ ih

theorem decode_encode (cs : List Char) : Quoted.decode (Quoted.encode cs) = cs := by
  induction cs with
  | nil => rfl
  | cons c cs ih =>
    have hstep : ∀ text, Quoted.decode (Quoted.encodeChar c ++ text) = c :: Quoted.decode text := by
      intro text
      unfold Quoted.encodeChar
      split
      case h_6 h₁ _ _ _ _ =>
        rw [List.singleton_append, Quoted.decode]
        · exact fun h => absurd h h₁
        · exact fun _ _ h => absurd h h₁
      all_goals rfl
    rw [Quoted.encode, List.flatMap_cons, hstep]
    exact congrArg _ ih

theorem cuts_quoted (cs rest : List Char) :
    Cuts ('"' :: Quoted.encode cs ++ ['"'] ++ rest) [(.string, .text (String.ofList cs))] rest := by
  have hm : (quoted (Quoted.encode cs)).meaning = .token .string (.text (String.ofList cs)) := by
    simp only [meaning, decode_encode]
  have htext : '"' :: Quoted.encode cs ++ ['"'] ++ rest = '"' :: (Quoted.encode cs ++ '"' :: rest) := by simp
  rw [htext]
  refine .token (l := quoted (Quoted.encode cs)) ?_ hm (.refl rest)
  unfold front
  rw [if_neg (by decide), if_neg (by decide), if_neg (by decide)]
  simp only [body?_encode]

end Lexemes

/-! ## What the tokens of a text are -/

/-- A name of the language: a word that is not reserved, or a word after a number sign. -/
def IsName (s : String) : Prop :=
  IsWord s.toList ∧ TokenKind.keyword? s = none ∨ ∃ cs, s.toList = '#' :: cs ∧ IsWord cs

/-- Whether a symbol can be that of a token of a text. -/
def Symbol.Lexed : Symbol → Prop
  | (.identifier, .text s) => IsName s
  | (.string, .text _) => True
  | (.number, .integer n) => 0 ≤ n.toInt
  | (.number, .bigInteger digits) => IsDigits digits.toList ∧ fitsInto 64 (digitsValue digits.toList) = false
  | (.number, .decimal x) => x.isFinite = true
  | (.identifier, _) | (.string, _) | (.number, _) => False
  | (_, p) => p = .empty

section Lexed

open Lexeme

theorem Symbol.Lexed.wellShaped {t : Token} (h : Symbol.Lexed t.symbol) : t.WellShaped := by
  obtain ⟨kind, payload, position⟩ := t
  unfold Token.WellShaped
  cases kind <;> cases payload <;> first | exact h | exact True.intro

theorem lexed_bare {k : TokenKind} (h : k ≠ .identifier ∧ k ≠ .string ∧ k ≠ .number) : Symbol.Lexed k.bare := by
  obtain ⟨h₁, h₂, h₃⟩ := h
  cases k <;> first | rfl | contradiction

theorem keyword?_ne {name : String} {k : TokenKind} (h : TokenKind.keyword? name = some k) :
    k ≠ .identifier ∧ k ≠ .string ∧ k ≠ .number := by
  unfold TokenKind.keyword? at h
  split at h <;> cases h <;> decide

theorem operator?_ne {cs spelling rest : List Char} {k : TokenKind} (h : operator? cs = some (k, spelling, rest)) :
    k ≠ .identifier ∧ k ≠ .string ∧ k ≠ .number := by
  unfold operator? at h
  split at h <;> cases h <;> decide

theorem of_mem_takeWhile (p : Char → Bool) (cs : List Char) : ∀ d ∈ cs.takeWhile p, p d = true :=
  List.all_eq_true.1 List.all_takeWhile

/-- An integer literal is not negative, or too large for 64 bits. -/
theorem integerPayload_lexed {digits : List Char} {p : Payload} (h : IsDigits digits) (hp : integerPayload digits = p) :
    Symbol.Lexed (.number, p) := by
  by_cases hf : fitsInto 64 (digitsValue digits) = true
  · have hlt := (fitsInto_iff.1 hf).2
    simp only [integerPayload, hf, ↓reduceIte] at hp
    subst hp
    show 0 ≤ (Int64.ofNat (digitsValue digits)).toInt
    rw [Int64.toInt_ofNat_of_lt (by simpa using Int.ofNat_lt.1 hlt)]
    exact Int.natCast_nonneg _
  · have hf' : fitsInto 64 (digitsValue (String.ofList digits).toList) = false := by
      rw [String.toList_ofList]
      exact Bool.eq_false_iff.2 hf
    simp only [integerPayload, hf] at hp
    subst hp
    exact ⟨by rw [String.toList_ofList]; exact h, hf'⟩

theorem front_lexed {c : Char} {cs rest : List Char} {l : Lexeme} {k : TokenKind} {p : Payload}
    (h : front c cs = .lexeme l rest) (hl : l.meaning = .token k p) : Symbol.Lexed (k, p) := by
  unfold front at h
  split at h
  · cases h
    cases hl
  · split at h
    next hd =>
      have hdigits : IsDigits (c :: cs.takeWhile isDigit) := by
        refine ⟨List.cons_ne_nil _ _, fun x hx => ?_⟩
        rcases List.mem_cons.1 hx with rfl | hx
        · exact hd
        · exact of_mem_takeWhile _ _ x hx
      split at h
      · cases h
        simp only [meaning] at hl
        split at hl
        next hx =>
          cases hl
          exact hx
        next => cases hl
      · cases h
        simp only [meaning, Meaning.token.injEq] at hl
        obtain ⟨rfl, hp⟩ := hl
        exact integerPayload_lexed hdigits hp
    next =>
      split at h
      next hw =>
        have hword : IsWord (c :: cs.takeWhile isWordPart) := ⟨c, _, rfl, hw, of_mem_takeWhile _ _⟩
        cases h
        simp only [meaning] at hl
        cases hk : TokenKind.keyword? (String.ofList (c :: cs.takeWhile isWordPart)) with
        | some kind =>
          rw [hk] at hl
          cases hl
          exact lexed_bare (keyword?_ne hk)
        | none =>
          rw [hk] at hl
          cases hl
          exact .inl ⟨by rw [String.toList_ofList]; exact hword, hk⟩
      next =>
        split at h
        · split at h
          · cases h
            cases hl
            exact trivial
          · cases h
        next d ds =>
          split at h
          next hd =>
            cases h
            cases hl
            exact .inr ⟨_, String.toList_ofList, ⟨_, _, rfl, hd, of_mem_takeWhile _ _⟩⟩
          next => cases h
        · cases h
          cases hl
        · split at h
          next ho =>
            cases h
            cases hl
            exact lexed_bare (operator?_ne ho)
          next => cases h

theorem tokensFrom_lexed {index : LineIndex} {offset : Nat} {text : List Char} {tokens : List Token}
    (h : tokensFrom index offset text = .ok tokens) : ∀ t ∈ tokens, Symbol.Lexed t.symbol := by
  match text with
  | [] =>
    rw [tokensFrom] at h
    cases h
    intro t ht
    rw [List.mem_singleton.1 ht]
    rfl
  | c :: cs =>
    rw [tokensFrom] at h
    split at h
    next l rest hf =>
      have hlt := length_rest_lt hf
      simp only at h
      split at h
      next => exact tokensFrom_lexed h
      next => cases h
      next k p hl =>
        cases ht : tokensFrom index (offset + l.size) rest with
        | error e =>
          rw [ht] at h
          cases h
        | ok ts =>
          rw [ht] at h
          cases h
          intro t hm
          rcases List.mem_cons.1 hm with rfl | hm
          · exact front_lexed hf hl
          · exact tokensFrom_lexed ht t hm
    next => cases h
    next => cases h
termination_by text.length
decreasing_by all_goals assumption

theorem tokenize_lexed {source : String} {tokens : List Token} (h : tokenize source = .ok tokens) :
    ∀ t ∈ tokens, Symbol.Lexed t.symbol := tokensFrom_lexed h

end Lexed

end QueryTemplate
