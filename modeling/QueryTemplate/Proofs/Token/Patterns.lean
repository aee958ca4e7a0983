import Mathlib.Computability.Language
import QueryTemplate.Proofs.Token.Cutting
import QueryTemplate.Proofs.Token.Offsets

/-!
# The patterns of lexemes

The lexical grammar, written down without an algorithm: each sort of lexeme is a language (`Pattern.language`), put
together from classes of characters by sequence, choice and repetition. A text that stands between quotes is a
repetition of characters and escapes.

What `Lexeme.front` cuts off a text is in the language of its sort (`front_formed`), and no shorter than anything at the
front of the text that a pattern allows (`front_covers`).
-/

namespace QueryTemplate

open Computability

/-! ## Languages -/

/-- The texts of one character of a class. -/
def oneOf (p : Char → Bool) : Language Char := {w | ∃ c, p c = true ∧ w = [c]}

/-- The sorts of lexeme, with strings that are not closed. -/
inductive Pattern
  | blanks
  | comment
  | integer
  | decimal
  | string
  | openString
  | word
  | column
  | operator (kind : TokenKind)
deriving DecidableEq

namespace Pattern

/-- How operators and punctuation marks are spelled. -/
def operatorText : TokenKind → Option (List Char)
  | .leftParen => some ['(']
  | .rightParen => some [')']
  | .leftBrace => some ['{']
  | .rightBrace => some ['}']
  | .comma => some [',']
  | .dot => some ['.']
  | .minus => some ['-']
  | .plus => some ['+']
  | .semicolon => some [';']
  | .slash => some ['/']
  | .star => some ['*']
  | .bang => some ['!']
  | .bangEqual => some ['!', '=']
  | .equal => some ['=']
  | .equalEqual => some ['=', '=']
  | .greater => some ['>']
  | .greaterEqual => some ['>', '=']
  | .less => some ['<']
  | .lessEqual => some ['<', '=']
  | .ampersand => some ['&']
  | .and => some ['&', '&']
  | .verticalBar => some ['|']
  | .or => some ['|', '|']
  | _ => none

/-- `[0-9]+` -/
def digits : Language Char := oneOf isDigit * (oneOf isDigit)∗

/-- `[a-zA-Z_][a-zA-Z0-9_]*` -/
def name : Language Char := oneOf isWordStart * (oneOf isWordPart)∗

/-- A character that is neither a quote nor a backslash, or a backslash and any character. -/
def stringItem : Language Char :=
  oneOf (fun c => c != '"' && c != '\\') + {['\\']} * oneOf fun _ => true

/-- The texts of a sort of lexeme. -/
def language : Pattern → Language Char
  | blanks => oneOf isBlank * (oneOf isBlank)∗
  | comment => {['/', '/']} * (oneOf (· != '\n'))∗
  | integer => digits
  | decimal => digits * {['.']} * digits
  | string => {['"']} * stringItem∗ * {['"']}
  | openString => {['"']} * stringItem∗ * (1 + {['\\']})
  | word => name
  | column => {['#']} * name
  | operator kind => {w | operatorText kind = some w}

end Pattern

open Pattern

/-! ## Repetitions of classes -/

section Classes

variable {p q : Char → Bool} {w : List Char}

theorem mem_oneOf : w ∈ oneOf p ↔ ∃ c, p c = true ∧ w = [c] := Iff.rfl

theorem mem_kstar_oneOf : w ∈ (oneOf p)∗ ↔ ∀ c ∈ w, p c = true := by
  constructor
  · intro h
    obtain ⟨ws, rfl, hws⟩ := Language.mem_kstar.1 h
    intro c hc
    obtain ⟨v, hv, hc⟩ := List.mem_flatten.1 hc
    obtain ⟨d, hd, rfl⟩ := hws v hv
    rw [List.mem_singleton.1 hc, hd]
  · intro h
    refine Language.mem_kstar.2 ⟨w.map fun c => [c], ?_, fun v hv => ?_⟩
    · rw [← List.flatMap_def, List.flatMap_singleton']
    · obtain ⟨c, hc, rfl⟩ := List.mem_map.1 hv
      exact ⟨c, h c hc, rfl⟩

theorem mem_oneOf_mul_kstar :
    w ∈ oneOf p * (oneOf q)∗ ↔ ∃ c cs, w = c :: cs ∧ p c = true ∧ ∀ d ∈ cs, q d = true := by
  rw [Language.mem_mul]
  constructor
  · rintro ⟨_, ⟨c, hc, rfl⟩, cs, hcs, rfl⟩
    exact ⟨c, cs, rfl, hc, mem_kstar_oneOf.1 hcs⟩
  · rintro ⟨c, cs, rfl, hc, hcs⟩
    exact ⟨[c], ⟨c, hc, rfl⟩, cs, mem_kstar_oneOf.2 hcs, rfl⟩

theorem mem_digits : w ∈ digits ↔ IsDigits w := by
  rw [digits, mem_oneOf_mul_kstar]
  constructor
  · rintro ⟨c, cs, rfl, hc, hcs⟩
    exact ⟨List.cons_ne_nil _ _, List.forall_mem_cons.2 ⟨hc, hcs⟩⟩
  · rintro ⟨hne, hw⟩
    obtain ⟨c, cs, rfl⟩ := List.exists_cons_of_ne_nil hne
    exact ⟨c, cs, rfl, List.forall_mem_cons.1 hw⟩

theorem mem_name : w ∈ name ↔ IsWord w := mem_oneOf_mul_kstar

theorem mem_singleton_mul {l : Language Char} {v : List Char} : w ∈ {v} * l ↔ ∃ u ∈ l, v ++ u = w := by
  rw [Language.mem_mul]
  exact exists_eq_left

theorem mem_mul_singleton {l : Language Char} {v : List Char} : w ∈ l * {v} ↔ ∃ u ∈ l, u ++ v = w := by
  rw [Language.mem_mul]
  exact exists_congr fun u => and_congr_right fun _ => exists_eq_left

end Classes

/-! ## Strings -/

section Strings

variable {cs w : List Char}

theorem mem_stringItem :
    w ∈ stringItem ↔ (∃ c, c ≠ '"' ∧ c ≠ '\\' ∧ w = [c]) ∨ ∃ c, w = ['\\', c] := by
  rw [stringItem, Language.mem_add, mem_singleton_mul, mem_oneOf]
  simp only [Bool.and_eq_true, bne_iff_ne, mem_oneOf, true_and, and_assoc]
  refine or_congr_right ⟨?_, ?_⟩
  · rintro ⟨_, ⟨c, rfl⟩, rfl⟩
    exact ⟨c, rfl⟩
  · rintro ⟨c, rfl⟩
    exact ⟨[c], ⟨c, rfl⟩, rfl⟩

theorem nil_mem_stringItems : [] ∈ stringItem∗ := Language.nil_mem_kstar _

theorem append_mem_stringItems (hw : w ∈ stringItem) (hcs : cs ∈ stringItem∗) : w ++ cs ∈ stringItem∗ := by
  obtain ⟨ws, rfl, hws⟩ := Language.mem_kstar.1 hcs
  exact Language.mem_kstar.2 ⟨w :: ws, rfl, List.forall_mem_cons.2 ⟨hw, hws⟩⟩

/-- What is between the quotes is a sequence of characters and escapes. -/
theorem body?_mem {body rest : List Char} (h : Lexeme.body? cs = some (body, rest)) : body ∈ stringItem∗ := by
  fun_induction Lexeme.body? cs generalizing body rest with
  | case1 => cases h
  | case2 r =>
    cases h
    exact nil_mem_stringItems
  | case3 c r ih =>
    obtain ⟨⟨b, a⟩, hb, he⟩ := Option.map_eq_some_iff.1 h
    cases he
    exact append_mem_stringItems (mem_stringItem.2 (.inr ⟨c, rfl⟩)) (ih hb)
  | case4 c r hquote hescape ih =>
    obtain ⟨⟨b, a⟩, hb, he⟩ := Option.map_eq_some_iff.1 h
    cases he
    refine append_mem_stringItems (w := [c]) (mem_stringItem.2 (.inl ⟨c, ?_, ?_, rfl⟩)) (ih hb)
    · exact hquote
    · -- A backslash that ends the text does not come before a quote.
      rintro rfl
      cases r with
      | nil => cases hb
      | cons d ds => exact hescape d ds rfl rfl

/-- Characters and escapes in front of a text do not close the string. -/
theorem body?_items (h : cs ∈ stringItem∗) (rest : List Char) :
    Lexeme.body? (cs ++ rest) = (Lexeme.body? rest).map fun (body, after) => (cs ++ body, after) := by
  obtain ⟨ws, rfl, hws⟩ := Language.mem_kstar.1 h
  clear h
  induction ws with
  | nil => simp
  | cons w ws ih =>
    obtain ⟨hw, hrest⟩ := List.forall_mem_cons.1 hws
    rw [List.flatten_cons, List.append_assoc]
    rcases mem_stringItem.1 hw with ⟨c, hq, hb, rfl⟩ | ⟨c, rfl⟩
    · rw [List.singleton_append, Lexeme.body?, ih hrest, Option.map_map]
      · rfl
      · exact hq
      · exact fun _ _ h => absurd h hb
    · rw [List.cons_append, List.singleton_append, Lexeme.body?, ih hrest, Option.map_map]
      rfl

end Strings

/-! ## Lexemes -/

namespace Lexeme

/-- The sort of a lexeme. -/
def pattern : Lexeme → Pattern
  | blank _ => .blanks
  | comment _ => .comment
  | integer _ => .integer
  | decimal .. => .decimal
  | quoted _ => .string
  | word _ => .word
  | column _ => .column
  | operator kind _ => .operator kind

/-- Whether the parts of a lexeme are what its sort allows. -/
def Formed : Lexeme → Prop
  | blank cs => ∃ c ds, cs = c :: ds ∧ isBlank c = true ∧ ∀ d ∈ ds, isBlank d = true
  | comment cs => ∀ c ∈ cs, (c != '\n') = true
  | integer digits => IsDigits digits
  | decimal whole fraction => IsDigits whole ∧ IsDigits fraction
  | quoted body => body ∈ stringItem∗
  | word cs => IsWord cs
  | column cs => IsWord cs
  | operator kind cs => operatorText kind = some cs

theorem Formed.mem_language {l : Lexeme} (h : l.Formed) : l.spelling ∈ l.pattern.language := by
  cases l with
  | blank cs => exact mem_oneOf_mul_kstar.2 h
  | comment cs => exact mem_singleton_mul.2 ⟨cs, mem_kstar_oneOf.2 h, rfl⟩
  | integer digits => exact mem_digits.2 h
  | decimal whole fraction =>
    refine Language.mem_mul.2 ⟨whole ++ ['.'], ?_, fraction, mem_digits.2 h.2, by simp [spelling]⟩
    exact mem_mul_singleton.2 ⟨whole, mem_digits.2 h.1, rfl⟩
  | quoted body => exact mem_mul_singleton.2 ⟨'"' :: body, mem_singleton_mul.2 ⟨body, h, rfl⟩, rfl⟩
  | word cs => exact mem_name.2 h
  | column cs => exact mem_singleton_mul.2 ⟨cs, mem_name.2 h, rfl⟩
  | operator kind cs => exact h

theorem operator?_text {cs spelling rest : List Char} {kind : TokenKind}
    (h : operator? cs = some (kind, spelling, rest)) : operatorText kind = some spelling := by
  unfold operator? at h
  split at h <;> cases h <;> rfl

theorem front_formed {c : Char} {cs rest : List Char} {l : Lexeme} (h : front c cs = .lexeme l rest) : l.Formed := by
  have class_formed : ∀ {p q : Char → Bool}, p c = true → ∃ d ds, c :: cs.takeWhile q = d :: ds ∧ p d = true ∧
      ∀ x ∈ ds, q x = true := fun {p q} hc => ⟨c, _, rfl, hc, of_mem_takeWhile q cs⟩
  have digits_formed : isDigit c = true → IsDigits (c :: cs.takeWhile isDigit) := fun hc =>
    ⟨List.cons_ne_nil _ _, List.forall_mem_cons.2 ⟨hc, of_mem_takeWhile _ _⟩⟩
  unfold front at h
  split at h
  next hc =>
    cases h
    exact class_formed hc
  split at h
  next hc =>
    split at h
    next fraction r hf =>
      cases h
      refine ⟨digits_formed hc, ?_⟩
      unfold fraction? at hf
      split at hf
      next d ds _ =>
        split at hf
        next hd =>
          cases hf
          exact ⟨List.cons_ne_nil _ _, List.forall_mem_cons.2 ⟨hd, of_mem_takeWhile _ _⟩⟩
        next => cases hf
      next => cases hf
    next =>
      cases h
      exact digits_formed hc
  split at h
  next hc =>
    cases h
    exact class_formed hc
  split at h
  · split at h
    next body r hb =>
      cases h
      exact body?_mem hb
    next => cases h
  · split at h
    next hd =>
      cases h
      exact ⟨_, _, rfl, hd, of_mem_takeWhile _ _⟩
    next => cases h
  · cases h
    exact of_mem_takeWhile _ _
  · split at h
    next kind spelling r ho =>
      cases h
      exact operator?_text ho
    next => cases h

end Lexeme

/-! ## The longest lexeme -/

/-- What is cut off a text is no shorter than a text of the pattern, and if it is as long it is of the pattern. -/
inductive Pattern.Covered (P : Pattern) (w : List Char) : Lexeme.Front → Prop
  | lexeme {l : Lexeme} {rest : List Char} (le : w.length ≤ l.spelling.length)
    (eq : l.spelling.length = w.length → l.pattern = P) : Covered P w (.lexeme l rest)
  | openQuote (eq : P = openString) : Covered P w .openQuote

section Covered

open Lexeme

variable {p : Char → Bool} {w cs rest : List Char} {c : Char}

theorem length_le_takeWhile (h : ∀ d ∈ w, p d = true) (rest : List Char) :
    w.length ≤ ((w ++ rest).takeWhile p).length := by
  rw [List.takeWhile_append_of_pos h, List.length_append]
  exact Nat.le_add_right _ _

/-- An operator of one character, where another character makes a longer lexeme of it. -/
theorem covered_of_longer {kind : TokenKind} {d : Char}
    (hlong : ∀ ds, ∃ l rest, front c (d :: ds) = .lexeme l rest ∧ 1 < l.spelling.length)
    (hshort : ∀ x xs, x ≠ d → front c (x :: xs) = .lexeme (operator kind [c]) (x :: xs))
    (hnil : front c [] = .lexeme (operator kind [c]) []) (cs : List Char) :
    (Pattern.operator kind).Covered [c] (front c cs) := by
  cases cs with
  | nil =>
    rw [hnil]
    exact .lexeme (Nat.le_refl _) fun _ => rfl
  | cons x xs =>
    by_cases hx : x = d
    · subst hx
      obtain ⟨l, rest, hl, hlt⟩ := hlong xs
      rw [hl]
      exact .lexeme (Nat.le_of_lt hlt) fun he => absurd he (Nat.ne_of_gt hlt)
    · rw [hshort x xs hx]
      exact .lexeme (Nat.le_refl _) fun _ => rfl

theorem covered_operator {kind : TokenKind} (h : w ∈ (Pattern.operator kind).language) (he : w ++ rest = c :: cs) :
    (Pattern.operator kind).Covered w (front c cs) := by
  cases kind <;> cases h <;> cases he
  case slash =>
    exact covered_of_longer (d := '/') (fun ds => ⟨_, _, rfl, by simp [spelling]⟩)
      (fun x xs hx => by simp +decide [front, operator?, hx]) rfl _
  case bang | equal | greater | less =>
    exact covered_of_longer (d := '=') (fun ds => ⟨_, _, rfl, Nat.lt_succ_self _⟩)
      (fun x xs hx => by simp +decide [front, operator?, hx]) rfl _
  case ampersand =>
    exact covered_of_longer (d := '&') (fun ds => ⟨_, _, rfl, Nat.lt_succ_self _⟩)
      (fun x xs hx => by simp +decide [front, operator?, hx]) rfl _
  case verticalBar =>
    exact covered_of_longer (d := '|') (fun ds => ⟨_, _, rfl, Nat.lt_succ_self _⟩)
      (fun x xs hx => by simp +decide [front, operator?, hx]) rfl _
  all_goals exact .lexeme (Nat.le_refl _) fun _ => rfl

theorem covered_word (h : IsWord w) (he : w ++ rest = c :: cs) : Pattern.word.Covered w (front c cs) := by
  obtain ⟨d, ds, rfl, hd, hds⟩ := h
  cases he
  unfold front
  rw [if_neg (by rw [isBlank_of_isWordPart (isWordPart_of_isWordStart hd)]; decide),
    if_neg (by rw [isDigit_of_isWordStart hd]; decide), if_pos hd]
  exact .lexeme (Nat.succ_le_succ (length_le_takeWhile hds rest)) fun _ => rfl

theorem covered_integer (h : IsDigits w) (he : w ++ rest = c :: cs) : Pattern.integer.Covered w (front c cs) := by
  obtain ⟨hne, hw⟩ := h
  obtain ⟨d, ds, rfl⟩ := List.exists_cons_of_ne_nil hne
  obtain ⟨hd, hds⟩ := List.forall_mem_cons.1 hw
  cases he
  have hle := Nat.succ_le_succ (length_le_takeWhile hds rest)
  unfold front
  rw [if_neg (by rw [isBlank_of_isWordPart (isWordPart_of_isDigit hd)]; decide), if_pos hd]
  split
  next fraction r hf =>
    -- With a point and more digits it is longer.
    have hlt : (c :: ds).length < (Lexeme.decimal (c :: (ds ++ rest).takeWhile isDigit) fraction).spelling.length := by
      simp only [spelling, List.length_append, List.length_cons] at hle ⊢
      omega
    exact .lexeme (Nat.le_of_lt hlt) fun he => absurd he (Nat.ne_of_gt hlt)
  next => exact .lexeme hle fun _ => rfl

theorem covered_decimal {whole fraction : List Char} (hw : IsDigits whole) (hf : IsDigits fraction)
    (he : whole ++ '.' :: fraction ++ rest = c :: cs) :
    Pattern.decimal.Covered (whole ++ '.' :: fraction) (front c cs) := by
  obtain ⟨hne, hw⟩ := hw
  obtain ⟨d, ds, rfl⟩ := List.exists_cons_of_ne_nil hne
  obtain ⟨hne, hf⟩ := hf
  obtain ⟨e, es, rfl⟩ := List.exists_cons_of_ne_nil hne
  obtain ⟨hd, hds⟩ := List.forall_mem_cons.1 hw
  obtain ⟨hd', hes⟩ := List.forall_mem_cons.1 hf
  have hdot : HeadNot isDigit ('.' :: (e :: es ++ rest)) := by
    intro x hx
    cases hx
    rfl
  have htext : d :: ds ++ '.' :: e :: es ++ rest = d :: (ds ++ '.' :: (e :: es ++ rest)) := by simp
  rw [htext] at he
  cases he
  have hle := length_le_takeWhile hes rest
  unfold front
  rw [if_neg (by rw [isBlank_of_isWordPart (isWordPart_of_isDigit hd)]; decide), if_pos hd,
    hdot.takeWhile hds, hdot.dropWhile hds]
  simp only [fraction?, List.cons_append, if_pos hd']
  refine .lexeme ?_ fun _ => rfl
  simp only [spelling, List.length_append, List.length_cons]
  omega

theorem covered_string {body : List Char} (h : body ∈ stringItem∗) (he : '"' :: body ++ ['"'] ++ rest = c :: cs) :
    Pattern.string.Covered ('"' :: body ++ ['"']) (front c cs) := by
  cases he
  have hbody : body? (body ++ ['"'] ++ rest) = some (body, rest) := by
    rw [List.append_assoc, body?_items h]
    simp [body?]
  show Pattern.string.Covered _ (front '"' (body ++ ['"'] ++ rest))
  rw [front_quote_of_some hbody]
  exact .lexeme (Nat.le_refl _) fun _ => rfl

theorem covered_openString {body ending : List Char} (h : body ∈ stringItem∗) (hending : ending = [] ∨ ending = ['\\'])
    (he : '"' :: body ++ ending ++ rest = c :: cs) :
    Pattern.openString.Covered ('"' :: body ++ ending) (front c cs) := by
  cases he
  show Pattern.openString.Covered _ (front '"' (body ++ ending ++ rest))
  have hbody := body?_items h (ending ++ rest)
  rw [← List.append_assoc] at hbody
  cases hb : body? (ending ++ rest) with
  | none =>
    rw [hb] at hbody
    rw [front_quote_of_none hbody]
    exact .openQuote rfl
  | some br =>
    obtain ⟨b, r⟩ := br
    rw [hb] at hbody
    rw [front_quote_of_some hbody]
    -- A quote further on closes the string, so it is longer.
    have hlt : ('"' :: body ++ ending).length < (quoted (body ++ b)).spelling.length := by
      rcases hending with rfl | rfl
      · simp [spelling]
      · cases rest with
        | nil => cases hb
        | cons d ds =>
          obtain ⟨⟨b', a⟩, -, he⟩ := Option.map_eq_some_iff.1 hb
          cases he
          simp only [spelling, List.length_append, List.length_cons]
          omega
    exact .lexeme (Nat.le_of_lt hlt) fun he => absurd he (Nat.ne_of_gt hlt)

/-- What is cut off a text is the longest lexeme: it is no shorter than any text of a pattern at the front. -/
theorem front_covers {P : Pattern} (h : w ∈ P.language) (he : w ++ rest = c :: cs) : P.Covered w (front c cs) := by
  cases P with
  | blanks =>
    obtain ⟨d, ds, rfl, hd, hds⟩ := mem_oneOf_mul_kstar.1 h
    cases he
    unfold front
    rw [if_pos hd]
    exact .lexeme (Nat.succ_le_succ (length_le_takeWhile hds rest)) fun _ => rfl
  | comment =>
    obtain ⟨ds, hds, rfl⟩ := mem_singleton_mul.1 h
    cases he
    exact .lexeme (Nat.add_le_add_right (length_le_takeWhile (mem_kstar_oneOf.1 hds) rest) 2) fun _ => rfl
  | integer => exact covered_integer (mem_digits.1 h) he
  | decimal =>
    obtain ⟨_, hwhole, fraction, hf, rfl⟩ := Language.mem_mul.1 h
    obtain ⟨whole, hw, rfl⟩ := mem_mul_singleton.1 hwhole
    have htext : whole ++ ['.'] ++ fraction = whole ++ '.' :: fraction := List.append_cons .. |>.symm
    rw [htext] at he ⊢
    exact covered_decimal (mem_digits.1 hw) (mem_digits.1 hf) he
  | string =>
    obtain ⟨_, hopen, rfl⟩ := mem_mul_singleton.1 h
    obtain ⟨body, hb, rfl⟩ := mem_singleton_mul.1 hopen
    exact covered_string hb he
  | openString =>
    obtain ⟨_, hopen, ending, hending, rfl⟩ := Language.mem_mul.1 h
    obtain ⟨body, hb, rfl⟩ := mem_singleton_mul.1 hopen
    exact covered_openString hb hending he
  | word => exact covered_word (mem_name.1 h) he
  | column =>
    obtain ⟨_, hname, rfl⟩ := mem_singleton_mul.1 h
    obtain ⟨d, ds, rfl, hd, hds⟩ := mem_name.1 hname
    cases he
    show Pattern.column.Covered _ (if isWordStart d then
      .lexeme (column (d :: (ds ++ rest).takeWhile isWordPart)) ((ds ++ rest).dropWhile isWordPart) else .stray '#')
    rw [if_pos hd]
    exact .lexeme (Nat.add_le_add_right (length_le_takeWhile hds rest) 2) fun _ => rfl
  | operator kind => exact covered_operator h he

end Covered

end QueryTemplate
