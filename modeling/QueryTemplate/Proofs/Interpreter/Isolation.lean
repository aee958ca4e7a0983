import QueryTemplate.Proofs.Interpreter.Linked

/-!
# Runs that do not see each other

A run in an interpreter that has run nothing yet comes to the same whatever objects there are besides those that it is
given, and whatever has been printed or declared before. Objects lie in other places and closures have other numbers
then, which only bodies of host types could notice; it is asked of them that they do not (`Registry.Stateless`).

Linked interpreters give linked answers to linked requests (`Interpreter.Linked.perform`), and so they do when names are
bound, looked up, or when rows are mapped.
-/

namespace QueryTemplate

open Relation Process

variable {ρ : Link}

/-- All closures may occur. -/
structure Link.Total (ρ : Link) : Prop where
  function : ∀ f, ρ.function f
  mapper : ∀ f, ρ.mapper f

theorem Link.Total.admits (hρ : ρ.Total) (m : Machine) (a : Action) : ρ.Admits m a := by
  cases a with
  | function d => exact hρ.function _
  | mapper d => exact hρ.mapper _
  | _ => trivial

/-- Bodies of host types work with what they are given only: they keep no state, and look neither at where objects lie
nor at the numbers of closures. -/
def Registry.Stateless (types : Registry) : Prop := ∀ ρ : Link, ρ.Total → types.Links ρ

/-- The same error or related results. -/
inductive SameResult {ε α β : Type} (R : α → β → Prop) : Except ε α → Except ε β → Prop
  | ok {a : α} {b : β} (h : R a b) : SameResult R (.ok a) (.ok b)
  | error (e : ε) : SameResult R (.error e) (.error e)

namespace SameResult

variable {ε ε' α α' β β' : Type} {R : α → β → Prop} {S : α' → β' → Prop} {x : Except ε α} {y : Except ε β}

theorem eq {x y : Except ε α} (h : SameResult Eq x y) : x = y := by
  cases h with
  | ok h => rw [h]
  | error e => rfl

theorem map (h : SameResult R x y) {f : α → α'} {g : β → β'} (hfg : ∀ a b, R a b → S (f a) (g b)) :
    SameResult S (x.map f) (y.map g) := by
  cases h with
  | ok h => exact .ok (hfg _ _ h)
  | error e => exact .error e

theorem mapError (h : SameResult R x y) (f : ε → ε') : SameResult R (x.mapError f) (y.mapError f) := by
  cases h with
  | ok h => exact .ok h
  | error e => exact .error _

end SameResult

/-! ## Processes -/

theorem Process.Linked.steps {types : Registry} {limit : Nat} {c c' d : Process} (h : c.Linked ρ c')
    (htypes : types.Links ρ) (hρ : ρ.Total) (hs : Steps types limit c d) :
    ∃ d', Steps types limit c' d' ∧ d.Linked ρ d' := by
  induction hs with
  | refl => exact ⟨c', .refl, h⟩
  | tail _ hs ih =>
    obtain ⟨d', hs', hd⟩ := ih
    obtain ⟨e', he', he⟩ := hd.step htypes (fun a _ => hρ.admits _ a) hs
    exact ⟨e', hs'.tail he', he⟩

/-- What linked processes come to in the end. -/
theorem Process.Linked.ended {types : Registry} {limit : Nat} {c c' : Process} {r r' : Except EvalError Outcome}
    {m m' : Machine} (h : c.Linked ρ c') (htypes : types.Links ρ) (hρ : ρ.Total)
    (hs : Steps types limit c ⟨.ended r, [], m⟩) (hs' : Steps types limit c' ⟨.ended r', [], m'⟩) :
    SameResult (Outcome.Linked ρ) r r' ∧ m.Linked ρ m' := by
  obtain ⟨⟨focus, fs, m₁⟩, hs₁, hfocus, hfs, hm⟩ := h.steps htypes hρ hs
  cases hfs
  cases hfocus with
  | ok ho =>
    obtain ⟨rfl, rfl⟩ := hs'.unique hs₁
    exact ⟨.ok ho, hm⟩
  | error e =>
    obtain ⟨rfl, rfl⟩ := hs'.unique hs₁
    exact ⟨.error e, hm⟩

/-! ## Interpreters -/

/-- Interpreters of the same types and with the same limit on calls, in linked states. -/
structure Interpreter.Linked (ρ : Link) (i i' : Interpreter) : Prop where
  types : i.types = i'.types
  callLimit : i.callLimit = i'.callLimit
  machine : i.machine.Linked ρ i'.machine

namespace Interpreter

variable {i i' : Interpreter}

theorem types_perform (i : Interpreter) (q : Request) : (i.perform q).2.types = i.types := by
  rw [perform_eq, types_run]

theorem callLimit_perform (i : Interpreter) (q : Request) : (i.perform q).2.callLimit = i.callLimit := by
  rw [perform_eq, callLimit_run]

namespace Linked

theorem fresh (types : Registry) (limit : Nat) {heap heap' : Heap} {output output' : Output} {count count' : Nat}
    (hheap : heap.Linked ρ heap') (houtput : output.Linked ρ.before output') (hcount : count' = count + ρ.later) :
    ((Interpreter.fresh types limit heap output).numberedFrom count).Linked ρ
      ((Interpreter.fresh types limit heap' output').numberedFrom count') :=
  ⟨rfl, rfl, .initial, rfl, rfl, hheap, houtput, hcount⟩

theorem defineAll (h : i.Linked ρ i') {xs ys : List (String × Value)} (hs : List.Forall₂ (Value.LinkedEntry ρ) xs ys) :
    (i.defineAll xs).Linked ρ (i'.defineAll ys) := by
  induction hs generalizing i i' with
  | nil => exact h
  | @cons x y xs ys he _ ih =>
    obtain ⟨n, v⟩ := x
    obtain ⟨n', w⟩ := y
    obtain ⟨hn, hv⟩ := he
    cases hn
    exact ih ⟨h.types, h.callLimit, h.machine.define n hv⟩

theorem lookup (h : i.Linked ρ i') (name : String) :
    SameResult (Value.Linked ρ) (i.lookup name) (i'.lookup name) := by
  have hl := h.machine.scopes.lookup i.machine.current name
  simp only [Interpreter.lookup, run, EvalM.lookup]
  generalize i.machine.scopes.lookup i.machine.current name = x at hl
  rw [h.machine.current] at hl
  generalize i'.machine.scopes.lookup i'.machine.current name = y at hl
  cases hl with
  | none => exact .error _
  | some hv => exact .ok hv

/-- Linked interpreters give linked answers. -/
theorem perform (h : i.Linked ρ i') (htypes : i.types.Links ρ) (hρ : ρ.Total) {q q' : Request} (hq : q.Linked ρ q') :
    SameResult (Value.Linked ρ) (i.perform q).1 (i'.perform q').1 ∧ (i.perform q).2.Linked ρ (i'.perform q').2 := by
  obtain ⟨r, hs, hr⟩ := i.perform_steps q
  obtain ⟨r', hs', hr'⟩ := i'.perform_steps q'
  rw [← h.types, ← h.callLimit] at hs'
  have hstart : (start q.plan i.machine).Linked ρ (start q'.plan i'.machine) := ⟨.doing hq.plan, .nil, h.machine⟩
  obtain ⟨hresult, hmachine⟩ := hstart.ended htypes hρ hs hs'
  rw [hr, hr']
  refine ⟨hresult.map fun _ _ ho => ho.value, ?_, ?_, hmachine⟩
  · rw [types_perform, types_perform, h.types]
  · rw [callLimit_perform, callLimit_perform, h.callLimit]

/-- Rows are mapped alike, up to the first error. -/
theorem mapRows (h : i.Linked ρ i') (htypes : i.types.Links ρ) (hρ : ρ.Total) {v w : Value} (hv : v.Linked ρ w)
    (rows : List Row) :
    SameResult (List.Forall₂ (Value.Linked ρ)) (i.mapRows v rows).1 (i'.mapRows w rows).1 ∧
      (i.mapRows v rows).2.Linked ρ (i'.mapRows w rows).2 := by
  induction rows generalizing i i' with
  | nil => exact ⟨.ok .nil, h⟩
  | cons row rows ih =>
    have htypes' : (i.mapRow v row).2.types = i.types := i.types_perform (.mapRow v row)
    obtain ⟨hresult, hi⟩ : SameResult (Value.Linked ρ) (i.mapRow v row).1 (i'.mapRow w row).1 ∧
        (i.mapRow v row).2.Linked ρ (i'.mapRow w row).2 := h.perform htypes hρ (.mapRow hv row)
    simp only [Interpreter.mapRows]
    generalize i.mapRow v row = a at hresult hi htypes'
    generalize i'.mapRow w row = b at hresult hi
    obtain ⟨x, j⟩ := a
    obtain ⟨y, j'⟩ := b
    cases hresult with
    | error e => exact ⟨.error e, hi⟩
    | ok hvalue =>
      obtain ⟨hvalues, hj⟩ := ih hi (htypes' ▸ htypes)
      exact ⟨hvalues.map fun _ _ => .cons hvalue, hj⟩

end Linked

end Interpreter

end QueryTemplate
