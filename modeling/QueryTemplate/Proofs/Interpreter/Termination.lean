import Mathlib
import QueryTemplate.Proofs.Interpreter.Lifetime
import QueryTemplate.Proofs.Interpreter.Panics

/-!
# Every request is answered

The steps of a process are not counted, and a function may call itself, or others that call it, or be put in the place
of another while it runs. Nevertheless no process goes on for ever: only a limited number of calls are nested, and what
is done between two calls follows a tree (`evaluation_terminates`). Looking for a name is one step of a process, which
is a walk outward without a bound; in a state that an interpreter comes to it ends as well.

What an evaluation comes to need not be a value or an error. An operator without a result that could be held panics
(`repetition_past_capacity_panics`).
-/

namespace QueryTemplate

open Process

/-- Whatever an interpreter is asked to do, in whatever state, it comes to a value, an error or a panic. The steps lead
to what the operation of the interpreter yields, and no sequence of them goes on for ever. If that is a panic, then the
steps have come to an operator that panics: a text would be longer than any can be, or a decimal would have a scale that
leaves its bits. In a state that has been reached while templates ran every walk from a scope outward ends, throughout
the steps. -/
theorem evaluation_terminates (i : Interpreter) (q : Request) :
    (∃ r : Except EvalError Outcome,
      Steps i.types i.callLimit (start q.plan i.machine) ⟨.ended r, [], (i.perform q).2.machine⟩ ∧
        (i.perform q).1 = r.map Outcome.value) ∧
    Acc (fun d c => Step i.types i.callLimit c d) (start q.plan i.machine) ∧
    (∀ e p, (i.perform q).1 = .error e → e.fault = .panic p →
      ∃ c, Steps i.types i.callLimit (start q.plan i.machine) c ∧ c.Panics p) ∧
    ∀ closed made r, Reached i.types i.callLimit closed made ⟨.ended r, [], i.machine⟩ →
      ∀ c, Steps i.types i.callLimit (start q.plan i.machine) c → ∀ id name,
        ∃ e, c.machine.scopes.Walk name id e ∧ c.machine.scopes.binder? id name = e.binder? := by
  obtain ⟨r, hs, hr⟩ := i.perform_steps q
  refine ⟨⟨r, hs, hr⟩, hs.acc, fun e p => Interpreter.panics_by_operator, fun closed made r h c hc id name => ?_⟩
  have hnested : (start q.plan i.machine).Nested := h.nested.move (.stay rfl rfl .same)
  exact (hnested.steps hc).aged.exists_walk id name

/-- A function that calls itself is called no more often than the limit allows. -/
theorem endless_recursion_terminates :
    let p : Program := [.function ⟨"f", .nowhere⟩ [] [.expr (.call (.name ⟨"f", .nowhere⟩) [] ⟨1, 12⟩)],
      .expr (.call (.name ⟨"f", .nowhere⟩) [] ⟨1, 18⟩)]
    let i := Interpreter.fresh .empty 3 .empty .silent
    Acc (fun d c => Step i.types i.callLimit c d) (start (Request.plan (.execute p)) i.machine) ∧
      (i.execute p).1.map (fun _ => ()) = .error ⟨.callDepthExceeded 3, ⟨1, 12⟩⟩ ∧
      ∀ c, Steps i.types i.callLimit (start (Request.plan (.execute p)) i.machine) c → ∀ id name,
        ∃ e, c.machine.scopes.Walk name id e ∧ c.machine.scopes.binder? id name = e.binder? := by
  intro p i
  obtain ⟨-, hacc, -, hwalk⟩ := evaluation_terminates i (.execute p)
  exact ⟨hacc, by decide +kernel, hwalk False [] _ (.fresh (List.forall_mem_nil _) nofun .silent 0)⟩

/-- A text of two bytes is repeated so often that no text can hold it: the template comes to neither a value nor an
error that is reported. -/
theorem repetition_past_capacity_panics :
    let tokens : List Token := [⟨.string, .text "ab", ⟨1, 0⟩⟩, ⟨.star, .empty, ⟨1, 5⟩⟩,
      ⟨.number, .integer 9223372036854775807, ⟨1, 7⟩⟩, ⟨.equalEqual, .empty, ⟨1, 27⟩⟩, ⟨.string, .text "", ⟨1, 30⟩⟩]
    ∃ p, parse tokens = .ok p ∧ ((Interpreter.fresh .empty 1024 .empty .silent).execute p).1.map Value.display =
      .error ⟨.panic .capacityOverflow, ⟨1, 5⟩⟩ ∧ (EvalFault.panic .capacityOverflow).code? = none := by
  intro tokens
  let p : Program := [.expr (.binary .eq (.binary .mul (.literal (.string "ab") ⟨1, 0⟩)
    (.literal (.int 9223372036854775807) ⟨1, 7⟩) ⟨1, 5⟩) (.literal (.string "") ⟨1, 30⟩) ⟨1, 27⟩)]
  have hp : parse tokens = .ok p := by cbv
  exact ⟨p, hp, by decide +kernel, rfl⟩

end QueryTemplate
