import Mathlib.Data.List.Forall2
import QueryTemplate.Bindings

/-!
# Bindings that match

The same names in the same order, bound to values that a relation allows side by side. What is done to both bindings in
the same way keeps them matching.
-/

namespace QueryTemplate.Bindings

variable {α β : Type}

/-- The same name with related values. -/
def MatchedEntry (S : α → β → Prop) (x : String × α) (y : String × β) : Prop := x.1 = y.1 ∧ S x.2 y.2

/-- The same names bound to related values in the same order. -/
def Matched (S : α → β → Prop) (b : Bindings α) (c : Bindings β) : Prop :=
  List.Forall₂ (MatchedEntry S) b.entries c.entries

namespace Matched

variable {S T : α → β → Prop} {b : Bindings α} {c : Bindings β} {v : α} {w : β}

theorem mono (hS : ∀ v w, S v w → T v w) (h : b.Matched S c) : b.Matched T c :=
  List.Forall₂.imp (fun _ _ he => ⟨he.1, hS _ _ he.2⟩) h

theorem empty : Matched S .empty .empty := .nil

theorem find? (h : b.Matched S c) (name : String) : Option.Rel S (b.find? name) (c.find? name) := by
  have hlookup : ∀ {xs : List (String × α)} {ys : List (String × β)}, List.Forall₂ (MatchedEntry S) xs ys →
      Option.Rel S (xs.lookup name) (ys.lookup name) := by
    intro xs ys h
    induction h with
    | nil => exact .none
    | @cons x y xs ys he hs ih =>
      obtain ⟨n, v⟩ := x
      obtain ⟨n', w⟩ := y
      obtain ⟨hn, hv⟩ := he
      cases hn
      by_cases hname : name = n
      · subst hname
        rw [List.lookup_cons_self, List.lookup_cons_self]
        exact .some hv
      · rwa [lookup_cons_of_ne _ _ hname, lookup_cons_of_ne _ _ hname]
  exact hlookup h

theorem contains (h : b.Matched S c) (name : String) : b.contains name = c.contains name := by
  have hf := h.find? name
  unfold Bindings.contains
  revert hf
  generalize b.find? name = x
  generalize c.find? name = y
  intro hf
  cases hf <;> rfl

theorem insert (h : b.Matched S c) (name : String) (hv : S v w) : (b.insert name v).Matched S (c.insert name w) := by
  have hput : ∀ {xs : List (String × α)} {ys : List (String × β)}, List.Forall₂ (MatchedEntry S) xs ys →
      List.Forall₂ (MatchedEntry S) (put name v xs) (put name w ys) := by
    intro xs ys h
    induction h with
    | nil => exact .cons ⟨rfl, hv⟩ .nil
    | @cons x y xs ys he hs ih =>
      obtain ⟨n, v'⟩ := x
      obtain ⟨n', w'⟩ := y
      obtain ⟨hn, hv'⟩ := he
      cases hn
      by_cases hname : name = n
      · subst hname
        simp only [put, beq_self_eq_true, ↓reduceIte]
        exact .cons ⟨rfl, hv⟩ hs
      · simp only [put, beq_false_of_ne hname, Bool.false_eq_true, ↓reduceIte]
        exact .cons ⟨rfl, hv'⟩ ih
  exact hput h

theorem insertAll {xs : List (String × α)} {ys : List (String × β)} (hs : List.Forall₂ (MatchedEntry S) xs ys)
    (h : b.Matched S c) : (b.insertAll xs).Matched S (c.insertAll ys) := by
  induction hs generalizing b c with
  | nil => exact h
  | @cons x y xs ys he hs ih =>
    obtain ⟨n, v⟩ := x
    obtain ⟨n', w⟩ := y
    obtain ⟨hn, hv⟩ := he
    cases hn
    exact ih (h.insert n hv)

end Matched

end QueryTemplate.Bindings
