import QueryTemplate.Proofs.Tree.Canonical
import QueryTemplate.Proofs.Tree.Lexed
import QueryTemplate.Proofs.Floating.Reading

/-!
# Canonical text

The canonical text of a tree is cut into the symbols of its canonical tree (`Expr.cuts`, `Stmt.cuts`): no two lexemes
merge where they are written side by side. What is assumed of a number with a point is that its decimal text reads back
(`ReadsBack`).
-/

namespace QueryTemplate

open Lexeme

/-- Digits, with or without a point among them, and the number that they are read as. -/
inductive ReadsAs : List Char → Float → Prop
  | whole {digits : List Char} (h : IsDigits digits) : ReadsAs digits (decimalValue digits [])
  | point {digits fraction : List Char} (h : IsDigits digits) (h' : IsDigits fraction) :
      ReadsAs (digits ++ '.' :: fraction) (decimalValue digits fraction)

/-- The decimal text of a number, in which whole numbers have no point, is read as the number. -/
def ReadsBack (x : Float) : Prop := ReadsAs (Floating.decodeDouble x).plain.toList x

/-- Then so is the literal it is written as. Where a point is added, there is a zero behind it. -/
theorem ReadsBack.ofFloat_eq {x : Float} (h : ReadsBack x) : ∃ whole fraction, ofFloat x = .decimal whole fraction ∧
    IsDigits whole ∧ IsDigits fraction ∧ decimalValue whole fraction = x := by
  have hpoint : ∀ {digits}, IsDigits digits → ∀ c ∈ digits, (c != '.') = true := fun hd c hc =>
    bne_iff_ne.2 fun he => absurd (hd.2 c hc) (he ▸ by decide)
  unfold ReadsBack at h
  unfold ofFloat
  generalize (Floating.decodeDouble x).plain.toList = cs at h
  cases h with
  | whole hd =>
    refine ⟨cs, ['0'], ?_, hd, ⟨nofun, List.all_eq_true.1 rfl⟩, decimalValue_zero cs⟩
    simp only [List.dropWhile_eq_nil_iff.2 (hpoint hd)]
  | @point digits fraction hd hf =>
    have hhead : HeadNot (· != '.') ('.' :: fraction) := fun c hc => by cases hc; rfl
    refine ⟨digits, fraction, ?_, hd, hf, rfl⟩
    simp only [hhead.takeWhile (hpoint hd), hhead.dropWhile (hpoint hd)]

/-- Whether a symbol is read from the lexeme that it is written as. -/
def Symbol.Written (s : Symbol) : Prop := s.Lexed ∧ ∀ x, s = (.number, .decimal x) → ReadsBack x

/-! ## Single lexemes -/

section Lexemes

variable {rest : List Char}

theorem Cuts.cons {text mid : List Char} {s : Symbol} {ss : List Symbol} (h : Cuts text [s] mid)
    (h' : Cuts mid ss rest) : Cuts text (s :: ss) rest := h.trans h'

theorem cuts_leftParen (rest : List Char) : Cuts (leftParen.spelling ++ rest) [TokenKind.leftParen.bare] rest :=
  .token rfl rfl (.refl rest)

theorem cuts_rightParen (rest : List Char) : Cuts (rightParen.spelling ++ rest) [TokenKind.rightParen.bare] rest :=
  .token rfl rfl (.refl rest)

theorem cuts_leftBrace (rest : List Char) : Cuts (leftBrace.spelling ++ rest) [TokenKind.leftBrace.bare] rest :=
  .token rfl rfl (.refl rest)

theorem cuts_rightBrace (rest : List Char) : Cuts (rightBrace.spelling ++ rest) [TokenKind.rightBrace.bare] rest :=
  .token rfl rfl (.refl rest)

theorem cuts_comma (rest : List Char) : Cuts (comma.spelling ++ rest) [TokenKind.comma.bare] rest :=
  .token rfl rfl (.refl rest)

theorem cuts_dot (rest : List Char) : Cuts (dot.spelling ++ rest) [TokenKind.dot.bare] rest :=
  .token rfl rfl (.refl rest)

theorem cuts_semicolon (rest : List Char) : Cuts (semicolon.spelling ++ rest) [TokenKind.semicolon.bare] rest :=
  .token rfl rfl (.refl rest)

theorem cuts_space (hr : HeadNot isBlank rest) : Cuts (space.spelling ++ rest) [] rest :=
  cuts_blank (by simp [isBlank]) hr

theorem cuts_newline (depth : Nat) (hr : HeadNot isBlank rest) : Cuts ((newline depth).spelling ++ rest) [] rest := by
  refine cuts_blank (fun c hc => ?_) hr
  rcases List.mem_cons.1 hc with rfl | hc
  · rfl
  · rw [List.eq_of_mem_replicate hc]
    rfl

/-- An equals sign with a space on each side. -/
theorem cuts_equal (hr : HeadNot isBlank rest) :
    Cuts (space.spelling ++ (equal.spelling ++ (space.spelling ++ rest))) [TokenKind.equal.bare] rest := by
  have hsign : Cuts (equal.spelling ++ (space.spelling ++ rest)) [TokenKind.equal.bare] (space.spelling ++ rest) :=
    .token rfl rfl (.refl _)
  exact (cuts_space (by rintro c hc; cases hc; rfl)).trans (hsign.trans (cuts_space hr))

/-- An operator with a space on each side. -/
theorem cuts_operator (op : Operator) (hr : HeadNot isBlank rest) :
    Cuts (space.spelling ++ (op.lexeme.spelling ++ (space.spelling ++ rest))) [op.kind.bare] rest := by
  have hsign : Cuts (op.lexeme.spelling ++ (space.spelling ++ rest)) [op.kind.bare] (space.spelling ++ rest) := by
    rcases op with op | op <;> cases op <;> exact .token rfl rfl (.refl _)
  refine (cuts_space ?_).trans (hsign.trans (cuts_space hr))
  rcases op with op | op <;> cases op <;> (rintro c hc; cases hc; rfl)

/-- An operator before its operand, which does not start with an equals sign. -/
theorem cuts_unaryOp (op : UnaryOp) (hr : HeadNot (· == '=') rest) :
    Cuts (op.lexeme.spelling ++ rest) [op.kind.bare] rest := by
  cases op with
  | neg => exact .token rfl rfl (.refl rest)
  | not =>
    cases rest with
    | nil => exact .token rfl rfl (.refl [])
    | cons c cs =>
      have hc : c ≠ '=' := by simpa using hr c rfl
      have ho : operator? ('!' :: c :: cs) = some (.bang, ['!'], c :: cs) := by
        rw [operator?]
        rintro ds h
        cases h
        exact hc rfl
      have hfront : front '!' (c :: cs) = .lexeme (.operator .bang ['!']) (c :: cs) := by
        unfold front
        rw [if_neg (by decide), if_neg (by decide), if_neg (by decide)]
        simp only [ho]
        rfl
      exact .token (l := .operator .bang ['!']) hfront rfl (.refl (c :: cs))

theorem ofName_word {s : String} (h : IsWord s.toList) : ofName s = .word s.toList := by
  obtain ⟨c, ds, hs, hc, -⟩ := h
  unfold ofName
  rw [hs]
  split
  next heq =>
    cases heq
    cases hc
  next => rfl

theorem ofName_column {s : String} {cs : List Char} (h : s.toList = '#' :: cs) : ofName s = .column cs := by
  unfold ofName
  rw [h]
  rfl

theorem cuts_name {s : String} (h : IsName s) (hr : HeadNot isWordPart rest) :
    Cuts ((ofName s).spelling ++ rest) [(.identifier, .text s)] rest := by
  rcases h with ⟨hw, hk⟩ | ⟨cs, hs, hw⟩
  · rw [ofName_word hw]
    have := cuts_word hw (by rwa [String.ofList_toList]) hr
    rwa [String.ofList_toList] at this
  · rw [ofName_column hs, ← String.ofList_toList (s := s), hs]
    exact cuts_column hw hr

theorem digitsValue_append (ds : List Char) (d : Char) :
    digitsValue (ds ++ [d]) = 10 * digitsValue ds + (d.toNat - '0'.toNat) := by
  simp [digitsValue, List.foldl_append]

theorem digitChar_lt_ten {n : Nat} (h : n < 10) : n.digitChar.toNat - '0'.toNat = n ∧ isDigit n.digitChar = true := by
  have : n = 0 ∨ n = 1 ∨ n = 2 ∨ n = 3 ∨ n = 4 ∨ n = 5 ∨ n = 6 ∨ n = 7 ∨ n = 8 ∨ n = 9 := by omega
  rcases this with rfl | rfl | rfl | rfl | rfl | rfl | rfl | rfl | rfl | rfl <;> decide

/-- The digits of a number denote it. -/
theorem digitsValue_toDigits (n : Nat) :
    digitsValue (Nat.toDigits 10 n) = n ∧ ∀ c ∈ Nat.toDigits 10 n, isDigit c = true := by
  induction n using Nat.strongRecOn with
  | _ n ih =>
    by_cases h : n < 10
    · obtain ⟨hv, hd⟩ := digitChar_lt_ten h
      rw [Nat.toDigits_of_lt_base h]
      refine ⟨?_, by simpa using hd⟩
      simpa [digitsValue] using hv
    · obtain ⟨hv, hd⟩ := digitChar_lt_ten (Nat.mod_lt n (by decide : 0 < 10))
      obtain ⟨hv', hd'⟩ := ih (n / 10) (by omega)
      rw [Nat.toDigits_of_base_le (by decide) (by omega)]
      refine ⟨?_, fun c hc => ?_⟩
      · rw [digitsValue_append, hv', hv]
        omega
      · rcases List.mem_append.1 hc with hc | hc
        · exact hd' c hc
        · rw [List.mem_singleton.1 hc]
          exact hd

theorem toList_toString_of_nonneg {n : Int} (h : 0 ≤ n) : (toString n).toList = Nat.toDigits 10 n.toNat := by
  obtain ⟨m, rfl⟩ := Int.eq_ofNat_of_zero_le h
  rw [← integerText_eq_toString, integerText, if_neg (by omega), naturalText, naturalDigits_eq_toDigits,
    String.toList_ofList]
  rfl

theorem isWord_of_keyword? {s : String} {k : TokenKind} (h : TokenKind.keyword? s = some k) : IsWord s.toList := by
  unfold TokenKind.keyword? at h
  split at h
  case h_13 => cases h
  all_goals exact ⟨_, _, rfl, rfl, List.all_eq_true.1 rfl⟩

theorem cuts_reserved (s : String) {k : TokenKind} (hk : TokenKind.keyword? s = some k)
    (hr : HeadNot isWordPart rest) : Cuts ((ofWord s).spelling ++ rest) [k.bare] rest := by
  show Cuts (s.toList ++ rest) _ _
  exact cuts_keyword (isWord_of_keyword? hk) (by rwa [String.ofList_toList]) hr

theorem cuts_int {n : Int64} (h : 0 ≤ n.toInt) (hr : Stops rest) :
    Cuts ((toString n.toInt).toList ++ rest) [(.number, .integer n)] rest := by
  obtain ⟨hv, hd⟩ := digitsValue_toDigits n.toInt.toNat
  have hlt := n.toInt_lt
  have hbound : Nat.pow 2 (64 - 1) = 9223372036854775808 := rfl
  have hfits : fitsInto 64 (n.toInt.toNat : Int) = true := by
    rw [fitsInto_iff, hbound]
    omega
  have hn : Int64.ofNat n.toInt.toNat = n := Int64.toInt.inj <| by
    rw [Int64.toInt_ofNat_of_lt (by omega)]
    omega
  have hp : integerPayload (Nat.toDigits 10 n.toInt.toNat) = .integer n := by
    simp only [integerPayload, hv, hfits, ↓reduceIte, hn]
  rw [toList_toString_of_nonneg h, ← hp]
  exact cuts_integer ⟨by simp, hd⟩ (hr.1.mono fun _ => isWordPart_of_isDigit) hr.2

theorem cuts_literal {l : Literal} (h : Symbol.Written l.symbol) (hr : Stops rest) :
    Cuts ((ofLiteral l).spelling ++ rest) [l.symbol] rest := by
  cases l with
  | null => exact cuts_reserved "null" rfl hr.1
  | bool b =>
    cases b with
    | true => exact cuts_reserved "true" rfl hr.1
    | false => exact cuts_reserved "false" rfl hr.1
  | int n => exact cuts_int h.1 hr
  | bigInt digits =>
    obtain ⟨hd, hf⟩ := h.1
    have hp : integerPayload digits.toList = .bigInteger digits := by
      simp only [integerPayload, hf, String.ofList_toList]
      rfl
    have := cuts_integer hd (hr.1.mono fun _ => isWordPart_of_isDigit) hr.2
    rwa [hp] at this
  | float x =>
    obtain ⟨whole, fraction, ho, hw, hf, rfl⟩ := (h.2 x rfl).ofFloat_eq
    show Cuts ((ofFloat _).spelling ++ rest) _ rest
    rw [ho]
    exact cuts_decimal hw hf (hr.1.mono fun _ => isWordPart_of_isDigit) h.1
  | string s =>
    have := cuts_quoted s.toList rest
    rwa [String.ofList_toList] at this

end Lexemes

/-! ## How texts start and go on -/

/-- What an expression can start with. -/
def isExprStart (c : Char) : Bool :=
  isWordPart c || c == '#' || c == '"' || c == '(' || c == '-' || c == '!'

/-- A text starts as an expression does. -/
def StartsExpr (cs : List Char) : Prop := ∃ c ds, cs = c :: ds ∧ isExprStart c = true

section Starts

variable {cs rest : List Char}

theorem StartsExpr.append (h : StartsExpr cs) (rest : List Char) : StartsExpr (cs ++ rest) := by
  obtain ⟨c, ds, rfl, hc⟩ := h
  exact ⟨c, ds ++ rest, rfl, hc⟩

theorem StartsExpr.headNot_blank (h : StartsExpr cs) : HeadNot isBlank cs := by
  obtain ⟨c, ds, rfl, hc⟩ := h
  rintro x hx
  cases hx
  cases hb : isBlank c with
  | false => rfl
  | true => rcases isBlank_iff.1 hb with rfl | rfl | rfl | rfl <;> exact absurd hc (by decide)

theorem StartsExpr.headNot_equal (h : StartsExpr cs) : HeadNot (· == '=') cs := by
  obtain ⟨c, ds, rfl, hc⟩ := h
  rintro x hx
  cases hx
  cases hb : c == '=' with
  | false => exact hb
  | true =>
    rw [beq_iff_eq.1 hb] at hc
    exact absurd hc (by decide)

/-- A punctuation mark other than a point stops a name or number. -/
theorem stops_cons {c : Char} (hw : isWordPart c = false) (hd : c ≠ '.') (rest : List Char) : Stops (c :: rest) := by
  refine ⟨fun x hx => by cases hx; exact hw, ?_⟩
  unfold fraction?
  split
  next h => exact absurd (List.cons.inj h).1 hd
  next => rfl

theorem IsName.startsExpr {s : String} (h : IsName s) : StartsExpr (ofName s).spelling := by
  rcases h with ⟨hw, -⟩ | ⟨cs, hs, -⟩
  · rw [ofName_word hw]
    obtain ⟨c, ds, hs, hc, -⟩ := hw
    exact ⟨c, ds, hs, by simp [isExprStart, isWordPart_of_isWordStart hc]⟩
  · rw [ofName_column hs]
    exact ⟨'#', cs, rfl, rfl⟩

/-- A point before a name is not part of a number. -/
theorem stops_dot {s : String} (h : IsName s) (rest : List Char) :
    Stops (dot.spelling ++ ((ofName s).spelling ++ rest)) := by
  have hdigit : ∃ c ds, (ofName s).spelling ++ rest = c :: ds ∧ isDigit c = false := by
    rcases h with ⟨hw, -⟩ | ⟨cs, hs, -⟩
    · rw [ofName_word hw]
      obtain ⟨c, ds, hs, hc, -⟩ := hw
      exact ⟨c, ds ++ rest, by rw [spelling, hs]; rfl, isDigit_of_isWordStart hc⟩
    · rw [ofName_column hs]
      exact ⟨'#', cs ++ rest, rfl, rfl⟩
  obtain ⟨c, ds, he, hc⟩ := hdigit
  rw [he]
  refine ⟨fun x hx => by cases hx; rfl, ?_⟩
  show (if isDigit c = true then _ else none) = none
  rw [if_neg (by rw [hc]; decide)]

theorem IsDigits.startsExpr (h : IsDigits cs) : StartsExpr cs := by
  obtain ⟨c, ds, rfl⟩ := List.exists_cons_of_ne_nil h.1
  exact ⟨c, ds, rfl, by simp [isExprStart, isWordPart_of_isDigit (h.2 c List.mem_cons_self)]⟩

theorem startsExpr_literal {l : Literal} (h : Symbol.Written l.symbol) : StartsExpr (ofLiteral l).spelling := by
  cases l with
  | null => exact ⟨'n', _, rfl, rfl⟩
  | bool b => cases b with
    | true => exact ⟨'t', _, rfl, rfl⟩
    | false => exact ⟨'f', _, rfl, rfl⟩
  | int n =>
    show StartsExpr (toString n.toInt).toList
    rw [toList_toString_of_nonneg h.1]
    exact IsDigits.startsExpr ⟨by simp, (digitsValue_toDigits _).2⟩
  | bigInt digits => exact h.1.1.startsExpr
  | float x =>
    obtain ⟨whole, fraction, ho, hw, -⟩ := (h.2 x rfl).ofFloat_eq
    show StartsExpr (ofFloat x).spelling
    rw [ho]
    exact hw.startsExpr.append _
  | string s => exact ⟨'"', _, rfl, rfl⟩

end Starts

/-! ## Expressions -/

namespace Expr

theorem startsExpr_parenthesizedIf {needed : Bool} {ls : List Lexeme} (h : StartsExpr (ls.flatMap spelling)) :
    StartsExpr ((parenthesizedIf needed ls).flatMap spelling) := by
  cases needed with
  | true => exact ⟨'(', _, rfl, rfl⟩
  | false => exact h

theorem startsExpr_lexemes : ∀ {e : Expr}, (∀ s ∈ e.symbols, Symbol.Written s) →
    StartsExpr (e.lexemes.flatMap spelling)
  | literal l _, h => by
    simp only [lexemes, List.flatMap_cons, List.flatMap_nil, List.append_nil]
    exact startsExpr_literal (h _ (by simp [symbols]))
  | name i, h => by
    simp only [lexemes, List.flatMap_cons, List.flatMap_nil, List.append_nil]
    exact (h i.symbol (by simp [symbols])).1.startsExpr
  | binary .., _ | logical .., _ => by
    rw [lexemes]
    exact ⟨'(', _, rfl, rfl⟩
  | unary op .., _ => by
    rw [lexemes]
    cases op with
    | neg => exact ⟨'-', _, rfl, rfl⟩
    | not => exact ⟨'!', _, rfl, rfl⟩
  | grouping inner _, h => by
    rw [lexemes]
    exact startsExpr_parenthesizedIf (startsExpr_lexemes fun s hs => h s (by simp [symbols, hs]))
  | assign target _, h => by
    simp only [lexemes, List.flatMap_append, List.flatMap_cons, List.append_assoc]
    exact (h target.symbol (by simp [symbols])).1.startsExpr.append _
  | call e .., h | callMethod e .., h | getField e _, h | setField e .., h => by
    simp only [lexemes, List.flatMap_append, List.append_assoc]
    exact (startsExpr_parenthesizedIf (startsExpr_lexemes fun s hs => h s (by simp [symbols, hs]))).append _

theorem cuts_groupedIf {needed : Bool} {e : Expr} {rest : List Char} (hr : Stops rest)
    (he : ∀ rest, Stops rest → Cuts (e.lexemes.flatMap spelling ++ rest) e.canonical.symbols rest) :
    Cuts ((parenthesizedIf needed e.lexemes).flatMap spelling ++ rest) (e.canonical.groupedIf needed).symbols rest := by
  cases needed with
  | false => exact he rest hr
  | true =>
    simp only [parenthesizedIf, groupedIf, ↓reduceIte, symbols, List.flatMap_cons, List.flatMap_append,
      List.flatMap_nil, List.append_assoc, List.cons_append, List.append_nil]
    exact (cuts_leftParen _).cons ((he _ (stops_cons rfl (by decide) _)).trans (cuts_rightParen _))

/-- The value after an equals sign. -/
theorem cuts_value {e : Expr} {rest : List Char} (h : ∀ s ∈ e.symbols, Symbol.Written s)
    (he : Cuts (e.lexemes.flatMap spelling ++ rest) e.canonical.symbols rest) :
    Cuts (space.spelling ++ (equal.spelling ++ (space.spelling ++ (e.lexemes.flatMap spelling ++ rest))))
      (TokenKind.equal.bare :: e.canonical.symbols) rest :=
  (cuts_equal ((startsExpr_lexemes h).append rest).headNot_blank).cons he

/-- An operation in its parentheses. -/
theorem cuts_operation (op : Operator) {left right : Expr} (hright : StartsExpr (right.lexemes.flatMap spelling))
    (hl : ∀ rest, Stops rest → Cuts (left.lexemes.flatMap spelling ++ rest) left.canonical.symbols rest)
    (hr : ∀ rest, Stops rest → Cuts (right.lexemes.flatMap spelling ++ rest) right.canonical.symbols rest)
    (rest : List Char) :
    Cuts ((leftParen :: left.lexemes ++ [space, op.lexeme, space] ++ right.lexemes ++ [rightParen]).flatMap spelling
        ++ rest)
      (TokenKind.leftParen.bare :: (left.canonical.symbols ++ op.kind.bare :: right.canonical.symbols)
        ++ [TokenKind.rightParen.bare]) rest := by
  simp only [List.flatMap_cons, List.flatMap_append, List.flatMap_nil, List.append_assoc, List.cons_append,
    List.append_nil]
  refine (cuts_leftParen _).cons ((hl _ (stops_cons rfl (by decide) _)).trans ?_)
  exact (cuts_operator op (hright.append _).headNot_blank).cons
    ((hr _ (stops_cons rfl (by decide) _)).trans (cuts_rightParen _))

theorem stops_argumentLexemes (es : List Expr) (rest : List Char) :
    Stops ((argumentLexemes es).flatMap spelling ++ rest) := by
  cases es with
  | nil => exact stops_cons rfl (by decide) _
  | cons e es =>
    rw [argumentLexemes]
    exact stops_cons rfl (by decide) _

theorem stops_furtherLexemes (es : List Expr) (rest : List Char) :
    Stops ((furtherLexemes es).flatMap spelling ++ rest) := by
  cases es with
  | nil => exact stops_cons rfl (by decide) _
  | cons e es =>
    rw [furtherLexemes]
    exact stops_cons rfl (by decide) _

mutual

theorem cuts : ∀ (e : Expr), (∀ s ∈ e.symbols, Symbol.Written s) → ∀ {rest : List Char}, Stops rest →
    Cuts (e.lexemes.flatMap spelling ++ rest) e.canonical.symbols rest
  | literal l p, h, rest, hr => by
    simp only [lexemes, canonical, symbols, List.flatMap_cons, List.flatMap_nil, List.append_nil]
    exact cuts_literal (h _ (by simp [symbols])) hr
  | name i, h, rest, hr => by
    simp only [lexemes, canonical, symbols, List.flatMap_cons, List.flatMap_nil, List.append_nil]
    exact cuts_name (h i.symbol (by simp [symbols])).1 hr.1
  | binary op left right p, h, rest, hr => by
    simp only [symbols, List.mem_append, List.mem_cons] at h
    simp only [lexemes, canonical, symbols]
    have hright : ∀ s ∈ right.symbols, Symbol.Written s := fun s hs => h s (.inr (.inr hs))
    exact cuts_operation (.binary op) (startsExpr_lexemes hright) (fun _ => cuts left fun s hs => h s (.inl hs))
      (fun _ => cuts right hright) rest
  | logical op left right p, h, rest, hr => by
    simp only [symbols, List.mem_append, List.mem_cons] at h
    simp only [lexemes, canonical, symbols]
    have hright : ∀ s ∈ right.symbols, Symbol.Written s := fun s hs => h s (.inr (.inr hs))
    exact cuts_operation (.logical op) (startsExpr_lexemes hright) (fun _ => cuts left fun s hs => h s (.inl hs))
      (fun _ => cuts right hright) rest
  | unary op operand p, h, rest, hr => by
    simp only [symbols, List.mem_cons] at h
    simp only [lexemes, canonical, symbols, List.flatMap_cons, List.append_assoc]
    have hoperand : ∀ s ∈ operand.symbols, Symbol.Written s := fun s hs => h s (.inr hs)
    have hstart : StartsExpr ((parenthesizedIf operand.isOpen operand.lexemes).flatMap spelling) :=
      startsExpr_parenthesizedIf (startsExpr_lexemes hoperand)
    exact (cuts_unaryOp op (hstart.append rest).headNot_equal).cons (cuts_groupedIf hr fun _ => cuts operand hoperand)
  | grouping inner p, h, rest, hr => by
    simp only [symbols, List.cons_append, List.mem_cons, List.mem_append] at h
    simp only [lexemes, canonical]
    exact cuts_groupedIf hr fun _ => cuts inner fun s hs => h s (.inr (.inl hs))
  | assign target value, h, rest, hr => by
    simp only [symbols, List.mem_cons] at h
    simp only [lexemes, canonical, symbols, List.flatMap_cons, List.append_assoc, List.cons_append, List.nil_append]
    have hvalue : ∀ s ∈ value.symbols, Symbol.Written s := fun s hs => h s (.inr (.inr hs))
    exact (cuts_name (h _ (.inl rfl)).1 (stops_cons rfl (by decide) _).1).cons
      (cuts_value hvalue (cuts value hvalue hr))
  | call callee arguments p, h, rest, hr => by
    simp only [symbols, List.mem_append, List.mem_cons] at h
    simp only [lexemes, canonical, symbols, List.flatMap_append, List.append_assoc]
    exact (cuts_groupedIf (stops_argumentLexemes arguments rest) fun _ => cuts callee fun s hs => h s (.inl hs)).trans
      (argumentCuts arguments (fun s hs => h s (.inr (.inr hs))) rest)
  | callMethod receiver method arguments, h, rest, hr => by
    simp only [symbols, List.mem_append, List.mem_cons] at h
    simp only [lexemes, canonical, symbols, List.flatMap_append, List.flatMap_cons, List.flatMap_nil, List.append_assoc,
      List.nil_append]
    have hname : IsName method.name := (h method.symbol (.inr (.inr (.inl rfl)))).1
    refine (cuts_groupedIf (stops_dot hname _) fun _ => cuts receiver fun s hs => h s (.inl hs)).trans ?_
    exact (cuts_dot _).cons ((cuts_name hname (stops_argumentLexemes arguments rest).1).cons
      (argumentCuts arguments (fun s hs => h s (.inr (.inr (.inr (.inr hs))))) rest))
  | getField receiver field, h, rest, hr => by
    simp only [symbols, List.mem_append, List.mem_cons] at h
    simp only [lexemes, canonical, symbols, List.flatMap_append, List.flatMap_cons, List.flatMap_nil, List.append_assoc,
      List.nil_append]
    have hname : IsName field.name := (h field.symbol (.inr (.inr (.inl rfl)))).1
    refine (cuts_groupedIf (stops_dot hname _) fun _ => cuts receiver fun s hs => h s (.inl hs)).trans ?_
    exact (cuts_dot _).cons (cuts_name hname hr.1)
  | setField receiver field value, h, rest, hr => by
    simp only [symbols, List.mem_append, List.mem_cons] at h
    simp only [lexemes, canonical, symbols, List.flatMap_append, List.flatMap_cons, List.flatMap_nil, List.append_assoc,
      List.nil_append]
    have hname : IsName field.name := (h field.symbol (.inr (.inr (.inl rfl)))).1
    have hvalue : ∀ s ∈ value.symbols, Symbol.Written s := fun s hs => h s (.inr (.inr (.inr (.inr hs))))
    refine (cuts_groupedIf (stops_dot hname _) fun _ => cuts receiver fun s hs => h s (.inl hs)).trans ?_
    exact (cuts_dot _).cons ((cuts_name hname (stops_cons rfl (by decide) _).1).cons
      (cuts_value hvalue (cuts value hvalue hr)))

theorem argumentCuts : ∀ (es : List Expr), (∀ s ∈ closedSymbols es, Symbol.Written s) → ∀ rest : List Char,
    Cuts ((argumentLexemes es).flatMap spelling ++ rest)
      (TokenKind.leftParen.bare :: closedSymbols (canonicalAll es)) rest
  | [], _, rest => by
    simp only [argumentLexemes, canonicalAll, closedSymbols, List.flatMap_cons, List.flatMap_nil, List.append_assoc,
      List.nil_append]
    exact (cuts_leftParen _).cons (cuts_rightParen _)
  | e :: es, h, rest => by
    simp only [closedSymbols, List.mem_append] at h
    simp only [argumentLexemes, canonicalAll, closedSymbols, List.flatMap_cons, List.flatMap_append, List.append_assoc,
      List.cons_append]
    exact (cuts_leftParen _).cons ((cuts e (fun s hs => h s (.inl hs)) (stops_furtherLexemes es rest)).trans
      (furtherCuts es (fun s hs => h s (.inr hs)) rest))

theorem furtherCuts : ∀ (es : List Expr), (∀ s ∈ furtherSymbols es, Symbol.Written s) → ∀ rest : List Char,
    Cuts ((furtherLexemes es).flatMap spelling ++ rest) (furtherSymbols (canonicalAll es)) rest
  | [], _, rest => by
    simp only [furtherLexemes, canonicalAll, furtherSymbols, List.flatMap_cons, List.flatMap_nil, List.append_nil]
    exact cuts_rightParen _
  | e :: es, h, rest => by
    simp only [furtherSymbols, List.cons_append, List.mem_cons, List.mem_append] at h
    simp only [furtherLexemes, canonicalAll, furtherSymbols, List.flatMap_cons, List.flatMap_append, List.append_assoc,
      List.cons_append]
    have he : ∀ s ∈ e.symbols, Symbol.Written s := fun s hs => h s (.inr (.inl hs))
    exact (cuts_comma _).cons ((cuts_space ((startsExpr_lexemes he).append _).headNot_blank).trans
      ((cuts e he (stops_furtherLexemes es rest)).trans (furtherCuts es (fun s hs => h s (.inr (.inr hs))) rest)))

end

end Expr

/-- Where symbols would continue an expression before them, their text starts with an opening parenthesis or a minus
sign. -/
def ShowsHead (text : List Char) (ss : List Symbol) : Prop :=
  ∃ c cs s ss', text = c :: cs ∧ ss = s :: ss' ∧ (s.1.continuesExpr = true → (c == '(' || c == '-') = true)

theorem ShowsHead.append {text : List Char} {ss : List Symbol} (h : ShowsHead text ss) (text' : List Char)
    (ss' : List Symbol) : ShowsHead (text ++ text') (ss ++ ss') := by
  obtain ⟨c, cs, s, ss₀, rfl, rfl, h⟩ := h
  exact ⟨c, cs ++ text', s, ss₀ ++ ss', rfl, rfl, h⟩

namespace Expr

theorem showsHead_groupedIf {needed : Bool} {e : Expr}
    (h : ShowsHead (e.lexemes.flatMap spelling) e.canonical.symbols) :
    ShowsHead ((parenthesizedIf needed e.lexemes).flatMap spelling) (e.canonical.groupedIf needed).symbols := by
  cases needed with
  | true =>
    simp only [groupedIf, ↓reduceIte, symbols]
    exact ⟨'(', _, _, _, rfl, rfl, fun _ => rfl⟩
  | false => exact h

theorem showsHead : ∀ {e : Expr}, (∀ s ∈ e.symbols, Symbol.Written s) →
    ShowsHead (e.lexemes.flatMap spelling) e.canonical.symbols
  | literal l _, h => by
    simp only [lexemes, canonical, symbols, List.flatMap_cons, List.flatMap_nil, List.append_nil]
    obtain ⟨c, ds, hc, -⟩ := startsExpr_literal (h l.symbol (by simp [symbols]))
    exact ⟨c, ds, _, _, hc, rfl, by rcases l with _ | (_ | _) | _ | _ | _ | _ <;> nofun⟩
  | name i, h => by
    simp only [lexemes, canonical, symbols, List.flatMap_cons, List.flatMap_nil, List.append_nil]
    obtain ⟨c, ds, hc, -⟩ := IsName.startsExpr (h i.symbol (by simp [symbols])).1
    exact ⟨c, ds, _, _, hc, rfl, nofun⟩
  | binary .., _ | logical .., _ => by
    simp only [lexemes, canonical, symbols]
    exact ⟨'(', _, _, _, rfl, rfl, fun _ => rfl⟩
  | unary op _ _, _ => by
    simp only [lexemes, canonical, symbols]
    cases op with
    | neg => exact ⟨'-', _, _, _, rfl, rfl, fun _ => rfl⟩
    | not => exact ⟨'!', _, _, _, rfl, rfl, nofun⟩
  | grouping inner _, h => by
    simp only [lexemes, canonical]
    exact showsHead_groupedIf (showsHead fun s hs => h s (by simp [symbols, hs]))
  | assign target _, h => by
    simp only [lexemes, canonical, symbols, List.flatMap_append, List.flatMap_cons, List.append_assoc]
    obtain ⟨c, ds, hc, -⟩ := IsName.startsExpr (h target.symbol (by simp [symbols])).1
    rw [hc]
    exact ⟨c, _, _, _, rfl, rfl, nofun⟩
  | call e .., h | callMethod e .., h | getField e _, h | setField e .., h => by
    simp only [lexemes, canonical, symbols, List.flatMap_append, List.append_assoc]
    exact (showsHead_groupedIf (showsHead fun s hs => h s (by simp [symbols, hs]))).append _ _

end Expr

/-! ## Statements -/

namespace Stmt

/-- A reserved word and the space after it. -/
theorem cuts_word_space (s : String) {k : TokenKind} {rest : List Char} (hk : TokenKind.keyword? s = some k)
    (hr : HeadNot isBlank rest) :
    Cuts ((ofWord s).spelling ++ (space.spelling ++ rest)) [k.bare] rest := by
  have hword : Cuts ((ofWord s).spelling ++ (space.spelling ++ rest)) [k.bare] (space.spelling ++ rest) :=
    cuts_reserved s hk (by rintro c hc; cases hc; rfl)
  exact hword.trans (cuts_space hr)

theorem cuts_path {names : List (List Char)} {rest : List Char} (h : ∀ cs ∈ names, IsName (String.ofList cs))
    (hr : HeadNot isWordPart rest) :
    Cuts (((names.map fun cs => ofName (String.ofList cs)).intersperse dot).flatMap spelling ++ rest)
      (pathSymbols names) rest := by
  match names with
  | [] => exact .refl rest
  | [cs] =>
    have := cuts_name (h cs List.mem_cons_self) hr
    simpa [pathSymbols] using this
  | cs :: cs' :: names =>
    have ih := cuts_path (fun cs hcs => h cs (List.mem_cons_of_mem _ hcs)) hr
    simp only [pathSymbols, List.map_cons, List.intersperse_cons_cons, List.flatMap_cons, List.append_assoc] at ih ⊢
    exact (cuts_name (h cs List.mem_cons_self) (by rintro c hc; cases hc; rfl)).cons ((cuts_dot _).cons ih)

theorem cuts_parameterList {p : Ident} {ps : List Ident} (rest : List Char)
    (h : ∀ y ∈ parameterListSymbols p ps, Symbol.Written y) :
    Cuts ((ofName p.name).spelling ++ ((ps.flatMap fun q => [comma, space, ofName q.name]).flatMap spelling
        ++ (rightParen.spelling ++ rest)))
      (parameterListSymbols p ps) rest := by
  induction ps generalizing p with
  | nil =>
    exact (cuts_name (h p.symbol List.mem_cons_self).1 (by rintro c hc; cases hc; rfl)).cons (cuts_rightParen rest)
  | cons q ps ih =>
    simp only [parameterListSymbols, List.forall_mem_cons] at h
    simp only [parameterListSymbols, List.flatMap_cons, List.flatMap_append, List.flatMap_nil, List.append_nil,
      List.append_assoc]
    have hq : IsName q.name := by cases ps <;> exact (h.2.2 q.symbol List.mem_cons_self).1
    refine (cuts_name h.1.1 (by rintro c hc; cases hc; rfl)).cons ((cuts_comma _).cons ?_)
    exact (cuts_space (hq.startsExpr.append _).headNot_blank).trans (ih h.2.2)

theorem cuts_parameters {ps : List Ident} (rest : List Char) (h : ∀ y ∈ parameterSymbols ps, Symbol.Written y) :
    Cuts ((ofParameters ps).flatMap spelling ++ (rightParen.spelling ++ rest)) (parameterSymbols ps) rest := by
  cases ps with
  | nil => exact cuts_rightParen rest
  | cons p ps =>
    simp only [ofParameters, List.flatMap_cons, List.append_assoc]
    exact cuts_parameterList rest h

/-- No blank stands before a statement. -/
theorem headNot_blank_lexemes (s : Stmt) (depth : Nat) (rest : List Char) (h : ∀ y ∈ s.symbols, Symbol.Written y) :
    HeadNot isBlank ((s.lexemes depth).flatMap spelling ++ rest) := by
  cases s with
  | expr e =>
    simp only [symbols, List.forall_mem_append] at h
    simp only [lexemes, List.flatMap_append, List.append_assoc]
    exact ((Expr.startsExpr_lexemes h.1).append _).headNot_blank
  | mapper name =>
    simp only [symbols, List.forall_mem_cons] at h
    simp only [lexemes, List.flatMap_append, List.flatMap_cons, List.append_assoc]
    have hname : IsName name.name := h.1.1
    exact (hname.startsExpr.append _).headNot_blank
  | block body =>
    rw [lexemes]
    cases body <;> (rintro c hc; cases hc; rfl)
  | ret value =>
    cases value <;> (rw [lexemes]; rintro c hc; cases hc; rfl)
  | _ =>
    rw [lexemes]
    rintro c hc
    cases hc
    rfl

/-- An expression and the semicolon after it. -/
theorem cuts_closed {e : Expr} (rest : List Char) (h : ∀ y ∈ e.symbols, Symbol.Written y) :
    Cuts (e.lexemes.flatMap spelling ++ (semicolon.spelling ++ rest))
      (e.canonical.symbols ++ [TokenKind.semicolon.bare]) rest :=
  (e.cuts h (stops_cons rfl (by decide) _)).trans (cuts_semicolon rest)

/-- The word `if`, a condition and the space after it. -/
theorem cuts_condition {condition : Expr} {rest : List Char} (h : ∀ y ∈ condition.symbols, Symbol.Written y)
    (hr : HeadNot isBlank rest) :
    Cuts ((ofWord "if").spelling
        ++ (space.spelling ++ (condition.lexemes.flatMap spelling ++ (space.spelling ++ rest))))
      (TokenKind.ifWord.bare :: condition.canonical.symbols) rest := by
  have hblank := ((Expr.startsExpr_lexemes h).append (space.spelling ++ rest)).headNot_blank
  refine (cuts_word_space "if" rfl hblank).cons ?_
  have := (condition.cuts h (stops_cons rfl (by decide) _)).trans (cuts_space hr)
  rwa [List.append_nil] at this

theorem headNot_blank_bracedIf {needed : Bool} {s : Stmt} {depth : Nat} (rest : List Char)
    (h : ∀ y ∈ s.symbols, Symbol.Written y) :
    HeadNot isBlank ((bracedIf needed depth (fun d => s.lexemes d)).flatMap spelling ++ rest) := by
  cases needed with
  | false => exact s.headNot_blank_lexemes depth rest h
  | true =>
    rintro c hc
    cases hc
    rfl

/-- A branch, in braces of its own or without. -/
theorem cuts_bracedIf {needed : Bool} {s : Stmt} {depth : Nat} (rest : List Char)
    (h : ∀ y ∈ s.symbols, Symbol.Written y)
    (hs : ∀ depth rest, Cuts ((s.lexemes depth).flatMap spelling ++ rest) s.canonical.symbols rest) :
    Cuts ((bracedIf needed depth (fun d => s.lexemes d)).flatMap spelling ++ rest) (s.canonical.blockIf needed).symbols
      rest := by
  cases needed with
  | false => exact hs depth rest
  | true =>
    simp only [bracedIf, blockIf, ↓reduceIte, symbols, symbolsOfAll, List.append_nil, List.flatMap_append,
      List.flatMap_cons, List.flatMap_nil, List.append_assoc]
    refine (cuts_leftBrace _).cons ((cuts_newline (depth + 1) (s.headNot_blank_lexemes _ _ h)).trans ?_)
    refine (hs _ _).trans ((cuts_newline depth ?_).trans (cuts_rightBrace rest))
    rintro c hc
    cases hc
    rfl

theorem headNot_blank_blockLexemes (ss : List Stmt) (depth : Nat) (rest : List Char) :
    HeadNot isBlank ((blockLexemes depth ss).flatMap spelling ++ rest) := by
  cases ss <;> (rintro c hc; cases hc; rfl)

/-- A name, parameters in parentheses and the body after them. -/
theorem cuts_header {name : Ident} {parameters : List Ident} {body rest : List Char} {ss : List Symbol}
    (hname : IsName name.name) (hp : ∀ y ∈ parameterSymbols parameters, Symbol.Written y)
    (hblank : HeadNot isBlank body) (hbody : Cuts body ss rest) :
    Cuts ((ofName name.name).spelling ++ (leftParen.spelling ++ ((ofParameters parameters).flatMap spelling
        ++ (rightParen.spelling ++ (space.spelling ++ body)))))
      (name.symbol :: TokenKind.leftParen.bare :: (parameterSymbols parameters ++ ss)) rest :=
  (cuts_name hname (by rintro c hc; cases hc; rfl)).cons
    ((cuts_leftParen _).cons ((cuts_parameters _ hp).trans ((cuts_space hblank).trans hbody)))

theorem isName_of_pathSymbols {names : List (List Char)} (h : ∀ y ∈ pathSymbols names, Symbol.Lexed y) :
    ∀ cs ∈ names, IsName (String.ofList cs) := by
  match names with
  | [] => exact List.forall_mem_nil _
  | [cs] => exact List.forall_mem_singleton.2 (h _ List.mem_cons_self)
  | cs :: cs' :: names =>
    have h' : ∀ y ∈ pathSymbols (cs' :: names), Symbol.Lexed y := fun y hy =>
      h y (List.mem_cons_of_mem _ (List.mem_cons_of_mem _ hy))
    exact List.forall_mem_cons.2 ⟨h _ List.mem_cons_self, isName_of_pathSymbols h'⟩

theorem startsExpr_path {names : List (List Char)} (hne : names ≠ []) (h : ∀ cs ∈ names, IsName (String.ofList cs)) :
    StartsExpr (((names.map fun cs => ofName (String.ofList cs)).intersperse dot).flatMap spelling) := by
  match names with
  | [] => exact absurd rfl hne
  | [cs] =>
    have := (h cs List.mem_cons_self).startsExpr
    simpa using this
  | cs :: cs' :: names =>
    simp only [List.map_cons, List.intersperse_cons_cons, List.flatMap_cons]
    exact (h cs List.mem_cons_self).startsExpr.append _

theorem cuts_import {path localName : String} (rest : List Char)
    (h : ∀ y ∈ importSymbols path localName, Symbol.Written y) :
    Cuts ((importLexemes path localName).flatMap spelling ++ rest)
      (TokenKind.importWord.bare :: importSymbols path localName) rest := by
  simp only [importSymbols, List.forall_mem_append] at h
  obtain ⟨⟨hp, hl⟩, -⟩ := h
  have hnames := isName_of_pathSymbols fun y hy => (hp y hy).1
  simp only [importLexemes, importSymbols, ofPath, List.flatMap_append, List.flatMap_cons, List.flatMap_nil,
    List.append_nil, List.append_assoc]
  have hstart := startsExpr_path (List.splitOn_ne_nil _ _) hnames
  refine (cuts_word_space "import" rfl (hstart.append _).headNot_blank).cons ?_
  split at hl
  next he =>
    rw [if_pos he, if_pos he]
    exact (cuts_path hnames (by rintro c hc; cases hc; rfl)).trans (cuts_semicolon rest)
  next he =>
    rw [if_neg he, if_neg he]
    have hname : IsName localName := (hl _ (List.mem_cons_of_mem _ List.mem_cons_self)).1
    have has : IsWord ['a', 's'] := ⟨'a', _, rfl, rfl, List.all_eq_true.1 rfl⟩
    have hword : ∀ {rest}, HeadNot isWordPart rest →
        Cuts ((ofWord "as").spelling ++ rest) [(.identifier, .text "as")] rest := cuts_word has rfl
    simp only [List.flatMap_cons, List.flatMap_nil, List.append_nil, List.append_assoc]
    refine (cuts_path hnames (by rintro c hc; cases hc; rfl)).trans ?_
    refine (cuts_space (by rintro c hc; cases hc; rfl)).trans ?_
    refine (hword (by rintro c hc; cases hc; rfl)).cons ?_
    refine (cuts_space (hname.startsExpr.append _).headNot_blank).trans ?_
    exact (cuts_name hname (by rintro c hc; cases hc; rfl)).cons (cuts_semicolon rest)

mutual

theorem cuts : ∀ (s : Stmt) (depth : Nat) (rest : List Char), (∀ y ∈ s.symbols, Symbol.Written y) →
    Cuts ((s.lexemes depth).flatMap spelling ++ rest) s.canonical.symbols rest
  | expr e, depth, rest, h => by
    simp only [symbols, List.forall_mem_append] at h
    simp only [lexemes, canonical, symbols, List.flatMap_append, List.flatMap_cons, List.flatMap_nil, List.append_nil,
      List.append_assoc]
    exact cuts_closed rest h.1
  | define name value, depth, rest, h => by
    simp only [symbols, List.forall_mem_cons, List.forall_mem_append] at h
    obtain ⟨-, hn, -, hv, -⟩ := h
    simp only [lexemes, canonical, symbols, List.flatMap_append, List.flatMap_cons, List.flatMap_nil, List.append_nil,
      List.append_assoc]
    have hname : IsName name.name := hn.1
    refine (cuts_word_space "var" rfl (hname.startsExpr.append _).headNot_blank).cons ?_
    refine (cuts_name hname (by rintro c hc; cases hc; rfl)).cons ?_
    exact (cuts_equal ((Expr.startsExpr_lexemes hv).append _).headNot_blank).cons (cuts_closed rest hv)
  | print e, depth, rest, h => by
    simp only [symbols, List.forall_mem_cons, List.forall_mem_append] at h
    simp only [lexemes, canonical, symbols, List.flatMap_append, List.flatMap_cons, List.flatMap_nil, List.append_nil,
      List.append_assoc]
    have hblank := ((Expr.startsExpr_lexemes h.2.1).append (semicolon.spelling ++ rest)).headNot_blank
    exact (cuts_word_space "println" rfl hblank).cons (cuts_closed rest h.2.1)
  | ret (some value) p, depth, rest, h => by
    simp only [symbols, List.forall_mem_cons, List.forall_mem_append] at h
    simp only [lexemes, canonical, symbols, List.flatMap_append, List.flatMap_cons, List.flatMap_nil, List.append_nil,
      List.append_assoc]
    have hblank := ((Expr.startsExpr_lexemes h.2.1).append (semicolon.spelling ++ rest)).headNot_blank
    exact (cuts_word_space "return" rfl hblank).cons (cuts_closed rest h.2.1)
  | ret none p, depth, rest, h => by
    simp only [lexemes, canonical, symbols, List.flatMap_cons, List.flatMap_nil, List.append_nil, List.append_assoc]
    exact (cuts_reserved "return" rfl (by rintro c hc; cases hc; rfl)).cons
      (cuts_semicolon rest)
  | ifThen condition thenBranch, depth, rest, h => by
    simp only [symbols, List.forall_mem_cons, List.forall_mem_append] at h
    obtain ⟨-, hc, ht⟩ := h
    simp only [lexemes, canonical, symbols, List.flatMap_append, List.flatMap_cons, List.flatMap_nil, List.append_nil,
      List.append_assoc]
    exact (cuts_condition hc (headNot_blank_bracedIf rest ht)).trans
      (cuts_bracedIf rest ht fun d r => cuts thenBranch d r ht)
  | ifElse condition thenBranch elseBranch, depth, rest, h => by
    simp only [symbols, List.forall_mem_cons, List.forall_mem_append] at h
    obtain ⟨-, hc, ht, -, he⟩ := h
    simp only [lexemes, canonical, symbols, List.flatMap_append, List.flatMap_cons, List.flatMap_nil, List.append_nil,
      List.append_assoc]
    refine (cuts_condition hc (headNot_blank_bracedIf _ ht)).trans ?_
    refine (cuts_bracedIf _ ht fun d r => cuts thenBranch d r ht).trans ?_
    have helse := cuts_word_space "else" rfl (elseBranch.headNot_blank_lexemes depth rest he)
    exact (cuts_space (by rintro c hc; cases hc; rfl)).trans (helse.cons (cuts elseBranch depth rest he))
  | block body, depth, rest, h => by
    simp only [symbols, List.forall_mem_cons, List.forall_mem_append] at h
    simp only [lexemes, canonical, symbols]
    exact cutsBlock body depth rest h.2.1
  | function name parameters body, depth, rest, h => by
    simp only [symbols, List.forall_mem_cons, List.forall_mem_append] at h
    obtain ⟨-, hn, -, hp, -, hb, -⟩ := h
    simp only [lexemes, canonical, symbols, List.flatMap_append, List.flatMap_cons, List.flatMap_nil, List.append_nil,
      List.append_assoc]
    have hname : IsName name.name := hn.1
    refine (cuts_word_space "fun" rfl (hname.startsExpr.append _).headNot_blank).cons ?_
    exact cuts_header hname hp (headNot_blank_blockLexemes body depth rest) (cutsBlock body depth rest hb)
  | mapper name parameters body, depth, rest, h => by
    simp only [symbols, List.forall_mem_cons, List.forall_mem_append] at h
    obtain ⟨hn, -, hp, -, hb, -⟩ := h
    simp only [lexemes, canonical, symbols, List.flatMap_append, List.flatMap_cons, List.flatMap_nil, List.append_nil,
      List.append_assoc]
    exact cuts_header hn.1 hp (headNot_blank_blockLexemes body depth rest) (cutsBlock body depth rest hb)
  | importType path localName, depth, rest, h => by
    simp only [symbols, List.forall_mem_cons] at h
    simp only [lexemes, canonical, symbols]
    exact cuts_import rest h.2

theorem cutsBlock : ∀ (ss : List Stmt) (depth : Nat) (rest : List Char), (∀ y ∈ symbolsOfAll ss, Symbol.Written y) →
    Cuts ((blockLexemes depth ss).flatMap spelling ++ rest)
      (TokenKind.leftBrace.bare :: (symbolsOfAll (canonicalAll ss) ++ [TokenKind.rightBrace.bare])) rest
  | [], depth, rest, _ => by
    exact (cuts_leftBrace _).cons (cuts_rightBrace rest)
  | s :: ss, depth, rest, h => by
    simp only [symbolsOfAll, List.forall_mem_append] at h
    simp only [blockLexemes, canonicalAll, symbolsOfAll, List.flatMap_append, List.flatMap_cons, List.flatMap_nil,
      List.append_nil, List.cons_append, List.append_assoc]
    refine (cuts_leftBrace _).cons ((cuts_newline (depth + 1) (s.headNot_blank_lexemes _ _ h.1)).trans ?_)
    refine (cuts s _ _ h.1).trans ((cutsFurther ss _ _ h.2).trans ?_)
    exact (cuts_newline depth (by rintro c hc; cases hc; rfl)).trans (cuts_rightBrace rest)

theorem cutsFurther : ∀ (ss : List Stmt) (depth : Nat) (rest : List Char), (∀ y ∈ symbolsOfAll ss, Symbol.Written y) →
    Cuts ((furtherLexemes depth ss).flatMap spelling ++ rest) (symbolsOfAll (canonicalAll ss)) rest
  | [], _, rest, _ => .refl rest
  | s :: ss, depth, rest, h => by
    simp only [symbolsOfAll, List.forall_mem_append] at h
    simp only [furtherLexemes, canonicalAll, symbolsOfAll, List.flatMap_cons, List.flatMap_append, List.cons_append,
      List.append_assoc]
    exact (cuts_newline depth (s.headNot_blank_lexemes _ _ h.1)).trans
      ((cuts s depth _ h.1).trans (cutsFurther ss depth rest h.2))

end

/-- A branch, in the braces that it is written in, does not start with what would continue the condition. -/
theorem symbols_blockIf_eq_cons {s : Stmt} (hp : s.isPlain = true) (h : ∀ y ∈ s.symbols, Symbol.Written y) :
    ∃ y ss, (s.canonical.blockIf s.continuesCondition).symbols = y :: ss ∧ y.1.continuesExpr = false := by
  cases hb : s.continuesCondition with
  | true => exact ⟨TokenKind.leftBrace.bare, _, by rw [blockIf, if_pos rfl, symbols], rfl⟩
  | false =>
    rw [blockIf, if_neg (by decide)]
    cases s with
    | expr e =>
      simp only [symbols, List.forall_mem_append] at h
      obtain ⟨c, cs, y, ss, hc, hs, hcontinues⟩ := Expr.showsHead h.1
      refine ⟨y, ss ++ [TokenKind.semicolon.bare], by rw [canonical, symbols, hs]; rfl, ?_⟩
      simp only [continuesCondition, hc] at hb
      cases hk : y.1.continuesExpr with
      | false => rfl
      | true =>
        rw [hcontinues hk] at hb
        cases hb
    | define => cases hp
    | function => cases hp
    | mapper => cases hp
    | importType => cases hp
    | ret value =>
      refine ⟨TokenKind.returnWord.bare, ?_⟩
      cases value <;> exact ⟨_, by rw [canonical, symbols], rfl⟩
    | print => exact ⟨TokenKind.printWord.bare, _, by rw [canonical, symbols], rfl⟩
    | block => exact ⟨TokenKind.leftBrace.bare, _, by rw [canonical, symbols], rfl⟩
    | ifThen | ifElse => exact ⟨TokenKind.ifWord.bare, _, by rw [canonical, symbols], rfl⟩

end Stmt

/-! ## Programs -/

/-- The canonical text of a program is cut into the symbols of its canonical tree. -/
theorem cuts_formatProgram {p : Program} (h : ∀ s ∈ p, ∀ y ∈ s.symbols, Symbol.Written y) :
    Cuts (formatProgram p).toList (Stmt.symbolsOfAll (Stmt.canonicalAll p)) [] := by
  have hall : ∀ {ss : List Stmt}, (∀ s ∈ ss, ∀ y ∈ s.symbols, Symbol.Written y) →
      ∀ y ∈ Stmt.symbolsOfAll ss, Symbol.Written y := fun {ss} h => by
    induction ss with
    | nil => exact List.forall_mem_nil _
    | cons s ss ih =>
      rw [List.forall_mem_cons] at h
      exact List.forall_mem_append.2 ⟨h.1, ih h.2⟩
  cases p with
  | nil => exact .refl []
  | cons s ss =>
    rw [List.forall_mem_cons] at h
    have hs := s.cuts 0 ((Stmt.furtherLexemes 0 ss).flatMap spelling) h.1
    have hss := Stmt.cutsFurther ss 0 [] (hall h.2)
    rw [List.append_nil] at hss
    simp only [formatProgram, Lexeme.text, String.toList_ofList, List.flatMap_append, Stmt.canonicalAll,
      Stmt.symbolsOfAll]
    exact hs.trans hss

/-- So is that of a statement. -/
theorem cuts_format {s : Stmt} (h : ∀ y ∈ s.symbols, Symbol.Written y) :
    Cuts s.format.toList s.canonical.symbols [] := by
  have hs := s.cuts 0 [] h
  rw [List.append_nil] at hs
  rwa [Stmt.format, Lexeme.text, String.toList_ofList]

end QueryTemplate
