import QueryTemplate.Token.Basic
import QueryTemplate.Text.Quoted

/-!
# Lexemes

A text is cut into lexemes: blanks and comments, which are skipped, and the spellings of tokens. At each place the
longest lexeme is taken. A lexeme keeps the characters that it was cut from, so a text is the concatenation of its
lexemes (`Lexeme.spelling`).
-/

namespace QueryTemplate

/-- Space, tab, carriage return and newline. -/
def isBlank (c : Char) : Bool := c == ' ' || c == '\t' || c == '\r' || c == '\n'

/-- The ten decimal digits. -/
def isDigit (c : Char) : Bool := '0' ≤ c && c ≤ '9'

/-- Letters without diacritics and the underscore. -/
def isWordStart (c : Char) : Bool := ('a' ≤ c && c ≤ 'z') || ('A' ≤ c && c ≤ 'Z') || c == '_'

/-- What may follow in a name. -/
def isWordPart (c : Char) : Bool := isWordStart c || isDigit c

/-- A piece of a text that is a token or stands between tokens. -/
inductive Lexeme
  /-- Blanks. -/
  | blank (cs : List Char)
  /-- Two slashes and the rest of the line, here without the slashes. -/
  | comment (cs : List Char)
  | integer (digits : List Char)
  /-- Digits, a point and digits. -/
  | decimal (whole fraction : List Char)
  /-- What stands between the quotes, with its escapes. -/
  | quoted (body : List Char)
  | word (cs : List Char)
  /-- A name after a number sign. -/
  | column (cs : List Char)
  | operator (kind : TokenKind) (cs : List Char)
deriving DecidableEq

namespace Lexeme

/-- The characters of a lexeme. -/
def spelling : Lexeme → List Char
  | blank cs => cs
  | comment cs => '/' :: '/' :: cs
  | integer digits => digits
  | decimal whole fraction => whole ++ '.' :: fraction
  | quoted body => '"' :: body ++ ['"']
  | word cs => cs
  | column cs => '#' :: cs
  | operator _ cs => cs

/-- The bytes that a lexeme takes up. -/
def size (l : Lexeme) : Nat := l.spelling.foldr (fun c n => c.utf8Size + n) 0

/-- The body of a string up to its closing quote, and what comes after the quote. A backslash keeps the character
after it from closing the string. -/
def body? : List Char → Option (List Char × List Char)
  | [] => none
  | '"' :: rest => some ([], rest)
  | '\\' :: c :: rest => (body? rest).map fun (body, after) => ('\\' :: c :: body, after)
  | c :: rest => (body? rest).map fun (body, after) => (c :: body, after)

/-- The digits after a decimal point, and what follows them. -/
def fraction? : List Char → Option (List Char × List Char)
  | '.' :: d :: rest => if isDigit d then some (d :: rest.takeWhile isDigit, rest.dropWhile isDigit) else none
  | _ => none

/-- The operator or punctuation mark at the front of a text, the longer one where two fit. -/
def operator? : List Char → Option (TokenKind × List Char × List Char)
  | '!' :: '=' :: rest => some (.bangEqual, ['!', '='], rest)
  | '=' :: '=' :: rest => some (.equalEqual, ['=', '='], rest)
  | '>' :: '=' :: rest => some (.greaterEqual, ['>', '='], rest)
  | '<' :: '=' :: rest => some (.lessEqual, ['<', '='], rest)
  | '&' :: '&' :: rest => some (.and, ['&', '&'], rest)
  | '|' :: '|' :: rest => some (.or, ['|', '|'], rest)
  | '(' :: rest => some (.leftParen, ['('], rest)
  | ')' :: rest => some (.rightParen, [')'], rest)
  | '{' :: rest => some (.leftBrace, ['{'], rest)
  | '}' :: rest => some (.rightBrace, ['}'], rest)
  | ',' :: rest => some (.comma, [','], rest)
  | '.' :: rest => some (.dot, ['.'], rest)
  | '-' :: rest => some (.minus, ['-'], rest)
  | '+' :: rest => some (.plus, ['+'], rest)
  | ';' :: rest => some (.semicolon, [';'], rest)
  | '/' :: rest => some (.slash, ['/'], rest)
  | '*' :: rest => some (.star, ['*'], rest)
  | '!' :: rest => some (.bang, ['!'], rest)
  | '=' :: rest => some (.equal, ['='], rest)
  | '>' :: rest => some (.greater, ['>'], rest)
  | '<' :: rest => some (.less, ['<'], rest)
  | '&' :: rest => some (.ampersand, ['&'], rest)
  | '|' :: rest => some (.verticalBar, ['|'], rest)
  | _ => none

/-- What stands at the front of a text. -/
inductive Front
  /-- A lexeme and the text after it. -/
  | lexeme (l : Lexeme) (rest : List Char)
  /-- A quote that nothing closes. -/
  | openQuote
  /-- A character that starts no lexeme. -/
  | stray (c : Char)
deriving DecidableEq

/-- Cut the longest lexeme off the text `c :: cs`. -/
def front (c : Char) (cs : List Char) : Front :=
  if isBlank c then .lexeme (blank (c :: cs.takeWhile isBlank)) (cs.dropWhile isBlank)
  else if isDigit c then
    match fraction? (cs.dropWhile isDigit) with
    | some (fraction, rest) => .lexeme (decimal (c :: cs.takeWhile isDigit) fraction) rest
    | none => .lexeme (integer (c :: cs.takeWhile isDigit)) (cs.dropWhile isDigit)
  else if isWordStart c then .lexeme (word (c :: cs.takeWhile isWordPart)) (cs.dropWhile isWordPart)
  else
    match c, cs with
    | '"', _ =>
      match body? cs with
      | some (body, rest) => .lexeme (quoted body) rest
      | none => .openQuote
    | '#', d :: ds =>
      if isWordStart d then .lexeme (column (d :: ds.takeWhile isWordPart)) (ds.dropWhile isWordPart)
      else .stray c
    | '/', '/' :: ds => .lexeme (comment (ds.takeWhile (· != '\n'))) (ds.dropWhile (· != '\n'))
    | _, _ =>
      match operator? (c :: cs) with
      | some (kind, spelling, rest) => .lexeme (operator kind spelling) rest
      | none => .stray c

theorem body?_append {cs body rest : List Char} (h : body? cs = some (body, rest)) : body ++ '"' :: rest = cs := by
  fun_induction body? cs generalizing body rest with
  | case1 => cases h
  | case2 r => cases h; rfl
  | case3 c r ih =>
    obtain ⟨⟨b, a⟩, hb, he⟩ := Option.map_eq_some_iff.1 h
    cases he
    rw [← ih hb]; rfl
  | case4 c r _ _ ih =>
    obtain ⟨⟨b, a⟩, hb, he⟩ := Option.map_eq_some_iff.1 h
    cases he
    rw [← ih hb]; rfl

theorem fraction?_append {cs ds rest : List Char} (h : fraction? cs = some (ds, rest)) : '.' :: ds ++ rest = cs := by
  unfold fraction? at h
  split at h
  · split at h
    · cases h
      simp [List.takeWhile_append_dropWhile]
    · cases h
  · cases h

theorem operator?_append {cs spelling rest : List Char} {kind : TokenKind}
    (h : operator? cs = some (kind, spelling, rest)) : spelling ++ rest = cs := by
  unfold operator? at h
  split at h <;> cases h <;> rfl

/-- Nothing is lost when a lexeme is cut off. -/
theorem spelling_append_rest {c : Char} {cs rest : List Char} {l : Lexeme} (h : front c cs = .lexeme l rest) :
    l.spelling ++ rest = c :: cs := by
  unfold front at h
  split at h
  · cases h; simp [spelling, List.takeWhile_append_dropWhile]
  · split at h
    · split at h
      next ds r hf =>
        cases h
        have := fraction?_append hf
        simp only [spelling, List.cons_append, List.append_assoc] at this ⊢
        rw [this, List.takeWhile_append_dropWhile]
      next => cases h; simp [spelling, List.takeWhile_append_dropWhile]
    · split at h
      · cases h; simp [spelling, List.takeWhile_append_dropWhile]
      · split at h
        · split at h
          next b r hb => cases h; simp [spelling, ← body?_append hb]
          next => cases h
        · split at h
          · cases h; simp [spelling, List.takeWhile_append_dropWhile]
          · cases h
        · cases h; simp [spelling, List.takeWhile_append_dropWhile]
        · split at h
          next k s r ho => cases h; exact operator?_append ho
          next => cases h

/-- A lexeme has at least one character. -/
theorem spelling_ne_nil {c : Char} {cs rest : List Char} {l : Lexeme} (h : front c cs = .lexeme l rest) :
    l.spelling ≠ [] := by
  unfold front at h
  split at h
  · cases h; simp [spelling]
  · split at h
    · split at h <;> cases h <;> simp [spelling]
    · split at h
      · cases h; simp [spelling]
      · split at h
        · split at h <;> cases h; simp [spelling]
        · split at h <;> cases h; simp [spelling]
        · cases h; simp [spelling]
        · split at h
          next k s r ho =>
            cases h
            unfold operator? at ho
            split at ho <;> cases ho <;> simp [spelling]
          next => cases h

/-- Cutting off a lexeme leaves a shorter text. -/
theorem length_rest_lt {c : Char} {cs rest : List Char} {l : Lexeme} (h : front c cs = .lexeme l rest) :
    rest.length < (c :: cs).length := by
  have h₁ := congrArg List.length (spelling_append_rest h)
  have h₂ := List.length_pos_iff.2 (spelling_ne_nil h)
  rw [List.length_append] at h₁
  omega

end Lexeme

end QueryTemplate
