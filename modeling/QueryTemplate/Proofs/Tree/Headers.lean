import Mathlib.Data.List.TakeWhile
import QueryTemplate.Tree.StmtParser

/-!
# Headers of mappers

Whether the header of a mapper is ahead is decided without going past a token that no header holds: it is seen from the
tokens before the first such token (`isMapperHeader_takeWhile`).
-/

namespace QueryTemplate

/-- Whether a header of a mapper, with the token that starts the body, can hold a token of this kind. -/
def TokenKind.isOfHeader (k : TokenKind) : Bool :=
  k == .identifier || k == .comma || k == .leftParen || k == .rightParen || k.opensBody

section TakeWhile

variable {p : TokenKind → Bool} (hp : ∀ k, k.isOfHeader = true → p k = true)

include hp

theorem opensBody_eq_false {k : TokenKind} (hk : ¬p k = true) : k.opensBody = false :=
  Bool.eq_false_iff.2 fun h => hk (hp k (by rw [TokenKind.isOfHeader, h, Bool.or_true]))

theorem isParameterTail_takeWhile (ks : List TokenKind) : isParameterTail (ks.takeWhile p) = isParameterTail ks := by
  fun_induction isParameterTail ks with
  | case1 ks ih =>
    rw [List.takeWhile_cons_of_pos (hp _ rfl), List.takeWhile_cons_of_pos (hp _ rfl)]
    exact ih
  | case2 k ks =>
    rw [List.takeWhile_cons_of_pos (hp _ rfl), List.takeWhile_cons_of_pos (hp _ rfl)]
    by_cases hk : p k = true
    · rw [List.takeWhile_cons_of_pos hk, isParameterTail]
    · rw [List.takeWhile_cons_of_neg hk, opensBody_eq_false hp hk]
      rfl
  | case3 ks h₁ h₂ =>
    have happend := List.takeWhile_append_dropWhile (p := p) (l := ks)
    rw [isParameterTail]
    · rintro r he
      rw [he] at happend
      exact h₁ _ happend.symm
    · rintro k r he
      rw [he] at happend
      exact h₂ _ _ happend.symm

theorem isMapperHeader_takeWhile (ks : List TokenKind) : isMapperHeader (ks.takeWhile p) = isMapperHeader ks := by
  fun_cases isMapperHeader ks with
  | case1 k ks =>
    rw [List.takeWhile_cons_of_pos (hp _ rfl), List.takeWhile_cons_of_pos (hp _ rfl),
      List.takeWhile_cons_of_pos (hp _ rfl)]
    by_cases hk : p k = true
    · rw [List.takeWhile_cons_of_pos hk, isMapperHeader]
    · rw [List.takeWhile_cons_of_neg hk, opensBody_eq_false hp hk]
      rfl
  | case2 ks hks =>
    rw [List.takeWhile_cons_of_pos (hp _ rfl), List.takeWhile_cons_of_pos (hp _ rfl), isMapperHeader]
    · exact isParameterTail_takeWhile hp ks
    · rintro k r he
      have happend := List.takeWhile_append_dropWhile (p := p) (l := ks)
      rw [he] at happend
      exact hks _ _ happend.symm
  | case3 ks h₁ h₂ =>
    have happend := List.takeWhile_append_dropWhile (p := p) (l := ks)
    rw [isMapperHeader]
    · rintro k r he
      rw [he] at happend
      exact h₁ _ _ happend.symm
    · rintro r he
      rw [he] at happend
      exact h₂ _ happend.symm

/-- What is behind a token that no header holds does not matter. -/
theorem isMapperHeader_append {ks : List TokenKind} (h : ∃ k ∈ ks, ¬p k = true) (rest rest' : List TokenKind) :
    isMapperHeader (ks ++ rest) = isMapperHeader (ks ++ rest') := by
  have hcut : ∀ rest, (ks ++ rest).takeWhile p = ks.takeWhile p := by
    intro rest
    have hshorter : ¬(ks.takeWhile p).length = ks.length := by
      intro hlength
      obtain ⟨k, hmem, hk⟩ := h
      exact hk (List.takeWhile_eq_self_iff.1 ((List.takeWhile_prefix p).eq_of_length hlength) k hmem)
    rw [List.takeWhile_append, if_neg hshorter]
  rw [← isMapperHeader_takeWhile hp, hcut, ← hcut rest', isMapperHeader_takeWhile hp]

end TakeWhile

end QueryTemplate
