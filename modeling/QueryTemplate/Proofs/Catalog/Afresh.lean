import Mathlib
import QueryTemplate.Proofs.Catalog.Entries
import QueryTemplate.Proofs.Interpreter.Isolation

/-!
# Queries are answered afresh

A catalogue compiles a query once and runs it any number of times, and all runs share the objects and the output of the
surrounding program. Nevertheless a query is answered as if it were compiled for this run and nothing had been run
before (`Query.prepareAfresh`, `Query.mapRowsAfresh`). Only the objects lie in other places then, and the functions have
other numbers (`Catalog.answers_afresh`).

This rests on two facts. The tree that is kept of a query is that of the source which was registered last
(`Catalog.Coherent.prepare_eq`), and an interpreter that has run nothing yet comes to linked answers on linked heaps
(`Query.prepareAfresh_linked`).
-/

namespace QueryTemplate

/-! ## Answers from nothing -/

namespace Query

/-- Compile a query for one run, and run it with parameters in an interpreter that has run nothing yet. Closures that
the objects and the parameters hold have numbers below the count. -/
def prepareAfresh (q : Query) (types : Registry) (heap : Heap) (output : Output) (count : Nat)
    (parameters : List (String × Value)) : Except QueryError String × Interpreter :=
  let i := (Interpreter.fresh types Interpreter.defaultCallLimit heap output).numberedFrom count
  match compile q.source with
  | .error f => (.error (.compilation f), i)
  | .ok program =>
    let (r, i) := (i.defineAll parameters).execute program
    ((r.map Value.display).mapError .evaluation, i)

/-- Compile a query for one run, run it in an interpreter that has run nothing yet, and apply its mapper to rows. -/
def mapRowsAfresh (q : Query) (types : Registry) (heap : Heap) (output : Output) (count : Nat) (rows : List Row) :
    Except QueryError (List Value) × Interpreter :=
  let i := (Interpreter.fresh types Interpreter.defaultCallLimit heap output).numberedFrom count
  match q.mapper with
  | none => (.error (.noMapper q.entity q.name), i)
  | some mapper =>
    match compile q.source with
    | .error f => (.error (.compilation f), i)
    | .ok program =>
      match i.execute program with
      | (.error e, i) => (.error (.evaluation e), i)
      | (.ok _, i) =>
        match Catalog.mapperOf i q.entity q.name mapper with
        | .error e => (.error e, i)
        | .ok m =>
          let (r, i) := i.mapRows m rows
          (r.mapError .evaluation, i)

variable {ρ : Link} {types : Registry} {heap heap' : Heap} {output output' : Output} {count count' : Nat}

theorem prepareAfresh_linked (q : Query) (htypes : types.Links ρ) (hρ : ρ.Total) (hheap : heap.Linked ρ heap')
    (houtput : output.Linked ρ.before output') (hcount : count' = count + ρ.later) {xs ys : List (String × Value)}
    (hs : List.Forall₂ (Value.LinkedEntry ρ) xs ys) :
    SameResult Eq (q.prepareAfresh types heap output count xs).1 (q.prepareAfresh types heap' output' count' ys).1 ∧
      (q.prepareAfresh types heap output count xs).2.Linked ρ (q.prepareAfresh types heap' output' count' ys).2 := by
  have hfresh := Interpreter.Linked.fresh types Interpreter.defaultCallLimit hheap houtput hcount
  unfold prepareAfresh
  cases compile q.source with
  | error f => exact ⟨.error _, hfresh⟩
  | ok p =>
    have hi := hfresh.defineAll hs
    have hlinks : (((Interpreter.fresh types Interpreter.defaultCallLimit heap output).numberedFrom count).defineAll
        xs).types.Links ρ := by
      rw [Interpreter.types_defineAll]
      exact htypes
    obtain ⟨hresult, hrun⟩ := hi.perform hlinks hρ (.execute p)
    exact ⟨(hresult.map fun _ _ hv => hv.similar.display).mapError _, hrun⟩

theorem mapperOf_linked {i i' : Interpreter} (h : i.Linked ρ i') (entity name mapper : String) :
    SameResult (Value.Linked ρ) (Catalog.mapperOf i entity name mapper) (Catalog.mapperOf i' entity name mapper) := by
  have hl := h.lookup mapper
  unfold Catalog.mapperOf
  generalize i.lookup mapper = x at hl
  generalize i'.lookup mapper = y at hl
  cases hl with
  | error e => exact .error _
  | ok hv =>
    cases hv with
    | mapper hf hg => exact .ok (.mapper hf hg)
    | function | object => exact .error _
    | plain hv =>
      rename_i v
      cases v with
      | mapper => cases hv
      | _ => exact .error _

theorem mapRowsAfresh_linked (q : Query) (htypes : types.Links ρ) (hρ : ρ.Total) (hheap : heap.Linked ρ heap')
    (houtput : output.Linked ρ.before output') (hcount : count' = count + ρ.later) (rows : List Row) :
    SameResult (List.Forall₂ (Value.Linked ρ)) (q.mapRowsAfresh types heap output count rows).1
        (q.mapRowsAfresh types heap' output' count' rows).1 ∧
      (q.mapRowsAfresh types heap output count rows).2.Linked ρ
        (q.mapRowsAfresh types heap' output' count' rows).2 := by
  have hfresh := Interpreter.Linked.fresh types Interpreter.defaultCallLimit hheap houtput hcount
  unfold mapRowsAfresh
  cases q.mapper with
  | none => exact ⟨.error _, hfresh⟩
  | some mapper =>
    cases compile q.source with
    | error f => exact ⟨.error _, hfresh⟩
    | ok p =>
      obtain ⟨hresult, hrun⟩ := hfresh.perform htypes hρ (.execute p)
      have hkept := Interpreter.types_perform
        ((Interpreter.fresh types Interpreter.defaultCallLimit heap output).numberedFrom count) (.execute p)
      simp only [Interpreter.perform] at hresult hrun hkept
      simp only
      generalize ((Interpreter.fresh types _ heap output).numberedFrom count).execute p = a at hresult hrun hkept
      generalize ((Interpreter.fresh types _ heap' output').numberedFrom count').execute p = b at hresult hrun
      obtain ⟨x, i⟩ := a
      obtain ⟨y, i'⟩ := b
      cases hresult with
      | error e => exact ⟨.error _, hrun⟩
      | ok =>
        have hmapper := mapperOf_linked hrun q.entity q.name mapper
        simp only
        generalize Catalog.mapperOf i q.entity q.name mapper = x at hmapper
        generalize Catalog.mapperOf i' q.entity q.name mapper = y at hmapper
        cases hmapper with
        | error e => exact ⟨.error _, hrun⟩
        | ok hm =>
          have hlinks : i.types.Links ρ := hkept ▸ htypes
          obtain ⟨hvalues, hj⟩ := hrun.mapRows hlinks hρ hm rows
          exact ⟨hvalues.mapError _, hj⟩

end Query

namespace Catalog

namespace Coherent

variable {c : Catalog} {history since : List CatalogEvent} {q : Query}

theorem prepare_eq (h : c.Coherent history) (hq : Latest q history since) (parameters : List (String × Value)) :
    let alone := q.prepareAfresh c.types c.heap c.output c.declarations parameters
    ∃ entries, c.prepare q.entity q.name parameters = (alone.1, { c.after alone.2 with entries }) := by
  obtain ⟨entries, hprogram⟩ := h.program_latest hq
  refine ⟨entries, ?_⟩
  unfold prepare Query.prepareAfresh
  rw [hprogram]
  cases compile q.source with
  | error f => rfl
  | ok p =>
    simp only [Except.mapError, interpreter]
    obtain ⟨r, i⟩ := (((Interpreter.fresh c.types Interpreter.defaultCallLimit c.heap c.output).numberedFrom
      c.declarations).defineAll parameters).execute p
    cases r <;> rfl

theorem mapRows_eq (h : c.Coherent history) (hq : Latest q history since) (rows : List Row) :
    let alone := q.mapRowsAfresh c.types c.heap c.output c.declarations rows
    ∃ entries, c.mapRows q.entity q.name rows = (alone.1, { c.after alone.2 with entries }) := by
  obtain ⟨entries, hprogram⟩ := h.program_latest hq
  have hquery : c.query? q.entity q.name = some q := by rw [query?, h.entry?_eq hq]; rfl
  unfold mapRows Query.mapRowsAfresh
  simp only [hquery, hprogram]
  cases q.mapper with
  | none => exact ⟨c.entries, rfl⟩
  | some mapper =>
    refine ⟨entries, ?_⟩
    cases compile q.source with
    | error f => rfl
    | ok p =>
      simp only [Except.mapError, interpreter]
      obtain ⟨r, i⟩ := ((Interpreter.fresh c.types Interpreter.defaultCallLimit c.heap c.output).numberedFrom
        c.declarations).execute p
      cases r with
      | error e => rfl
      | ok v =>
        simp only
        cases mapperOf i q.entity q.name mapper with
        | error e => rfl
        | ok m =>
          simp only
          obtain ⟨r, j⟩ := i.mapRows m rows
          cases r <;> rfl

end Coherent

/-- A heap for a run on its own: its objects stand for some of the objects that the catalogue has for the run, what the
run prints comes after what has been printed, and the functions that it declares come after those declared so far. -/
structure Lends (c : Catalog) (ρ : Link) (heap : Heap) (count : Nat) : Prop where
  total : ρ.Total
  objects : heap.Linked ρ c.heap
  before : ρ.before = c.output.text
  declarations : c.declarations = count + ρ.later

/-- A run in a catalogue comes to what a run on its own comes to: the same error or related results, with the same text
printed, and the same fields in the objects. -/
structure Repeats {α : Type} (ρ : Link) (R : α → α → Prop) (alone : Except QueryError α × Interpreter)
    (run : Except QueryError α × Catalog) : Prop where
  result : SameResult R alone.1 run.1
  printed : run.2.output.text = ρ.before ++ alone.2.printed
  objects : alone.2.machine.heap.Linked ρ run.2.heap

section

variable {α : Type} {ρ : Link} {R : α → α → Prop} {c : Catalog} {own : Heap} {count : Nat} {q : Query}
  {history since : List CatalogEvent}

theorem Repeats.of_linked {alone : Except QueryError α × Interpreter} {r : Except QueryError α} {i : Interpreter}
    (hresult : SameResult R alone.1 r) (hi : alone.2.Linked ρ i) (entries : List CatalogEntry) :
    Repeats ρ R alone (r, { c.after i with entries }) where
  result := hresult
  printed := hi.machine.output.text
  objects := hi.machine.heap

theorem Lends.output (h : c.Lends ρ own count) : c.output.clear.Linked ρ.before c.output := by
  rw [h.before]
  exact c.output.linked_clear

namespace Coherent

theorem prepare_repeats (h : c.Coherent history) (htypes : c.types.Stateless) (hq : Latest q history since)
    (hown : c.Lends ρ own count) {xs ys : List (String × Value)} (hs : List.Forall₂ (Value.LinkedEntry ρ) xs ys) :
    Repeats ρ Eq (q.prepareAfresh c.types own c.output.clear count xs) (c.prepare q.entity q.name ys) := by
  obtain ⟨entries, heq⟩ := h.prepare_eq hq ys
  obtain ⟨hresult, hi⟩ :=
    q.prepareAfresh_linked (htypes ρ hown.total) hown.total hown.objects hown.output hown.declarations hs
  rw [heq]
  exact .of_linked hresult hi entries

theorem mapRows_repeats (h : c.Coherent history) (htypes : c.types.Stateless) (hq : Latest q history since)
    (hown : c.Lends ρ own count) (rows : List Row) : Repeats ρ (List.Forall₂ (Value.Linked ρ))
      (q.mapRowsAfresh c.types own c.output.clear count rows) (c.mapRows q.entity q.name rows) := by
  obtain ⟨entries, heq⟩ := h.mapRows_eq hq rows
  obtain ⟨hresult, hi⟩ :=
    q.mapRowsAfresh_linked (htypes ρ hown.total) hown.total hown.objects hown.output hown.declarations rows
  rw [heq]
  exact .of_linked hresult hi entries

end Coherent

end

/-- Whatever has been done with a catalogue whose host types are stateless:

* The number of compiled queries is that of the entities and names whose query has been run since it was registered
  last, and could be compiled.
* A query that was never registered is not found. Of any other, one was registered last.
* A run of that is the same as one in which the source that was registered last is compiled and run in an
  interpreter that has run nothing yet. There are no objects then but those that the run is given, and functions may be
  numbered from another count on. -/
theorem answers_afresh {types : Registry} (htypes : types.Stateless) (heap : Heap) (output : Output)
    (history : List CatalogEvent) :
    let c := (Catalog.new types heap output).replay history
    (∃ keys : List (String × String), keys.Nodup ∧ (∀ key, key ∈ keys ↔ Compiled history key) ∧
      c.compiledCount = keys.length) ∧
    (∀ entity name, (∀ q, .register q ∈ history → q.key ≠ (entity, name)) →
      (∀ parameters, c.prepare entity name parameters = (.error (.queryNotFound entity name), c)) ∧
      ∀ rows, c.mapRows entity name rows = (.error (.queryNotFound entity name), c)) ∧
    (∀ q, .register q ∈ history → ∃ q' since, Latest q' history since ∧ q'.key = q.key) ∧
    ∀ q since, Latest q history since → ∀ ρ own count, c.Lends ρ own count →
      (∀ xs ys, List.Forall₂ (Value.LinkedEntry ρ) xs ys →
        Repeats ρ Eq (q.prepareAfresh types own c.output.clear count xs) (c.prepare q.entity q.name ys)) ∧
      ∀ rows, Repeats ρ (List.Forall₂ (Value.Linked ρ)) (q.mapRowsAfresh types own c.output.clear count rows)
        (c.mapRows q.entity q.name rows) := by
  intro c
  have h : c.Coherent history := .replay types heap output history
  have hsame : c.types = types := replay_types _ history
  refine ⟨h.compiledCount_eq, fun entity name hnone => ?_, fun q => exists_latest,
    fun q since hq ρ own count hown => ?_⟩
  · have hentry := h.entry?_none hnone
    exact ⟨fun parameters => by simp only [prepare, program, hentry],
      fun rows => by simp only [mapRows, query?, hentry, Option.map_none]⟩
  · rw [← hsame] at htypes ⊢
    exact ⟨fun xs ys hs => h.prepare_repeats htypes hq hown hs, h.mapRows_repeats htypes hq hown⟩

/-- A query is run without its parameter, which fails, and registered anew; then it is run with an object. -/
theorem registered_anew_answers_afresh :
    let cell : HostType := ⟨"lib.Cell", ["value"], [.default], []⟩
    let types := Registry.ofList .empty [cell]
    let seven := ((HostObject.new cell).set? "value" (.int 7)).getD (.new cell)
    let price : Query := ⟨"shop", "price", "println cell.value; cell.value", none⟩
    let history : List CatalogEvent := [.surroundings ⟨#[.new cell, seven]⟩ (.buffer "old\n") 3,
      .prepare "shop" "price" [], .register price, .prepare "shop" "price" [], .register { price with source := "1" }]
    let c := (Catalog.new types .empty (.buffer "")).replay history
    let answer := c.prepare "shop" "price" [("cell", .object ⟨cell, 1⟩)]
    answer.1 = .ok "7" ∧ answer.2.output.text = "old\n7\n" ∧ c.compiledCount = 1 ∧
      (c.prepare "shop" "name" []).1 = .error (.queryNotFound "shop" "name") := by
  intro cell types seven price history c answer
  have htypes : types.Stateless := fun ρ _ => Bodies.links_empty
  let ρ : Link := ⟨fun _ => True, fun _ => True, fun i j => j = i + 1, by omega, by omega, 3, "old\n"⟩
  let own : Heap := ⟨#[seven]⟩
  let p : Program := [.print (.getField (.name ⟨"cell", ⟨1, 8⟩⟩) ⟨"value", ⟨1, 13⟩⟩),
    .expr (.getField (.name ⟨"cell", ⟨1, 20⟩⟩) ⟨"value", ⟨1, 25⟩⟩)]
  have hown : c.Lends ρ own 0 := by
    refine ⟨⟨fun _ => trivial, fun _ => trivial⟩, ⟨fun {i j} hij => ?_, fun n => ?_⟩, rfl, rfl⟩
    · obtain rfl : j = i + 1 := hij
      cases i with
      | zero => exact .some ⟨rfl, .cons ⟨rfl, .plain rfl⟩ .nil⟩
      | succ i => exact .none
    · show 2 + n = 1 + n + 1
      omega
  have hlatest : Latest price history _ := .later (.later (.registered _) rfl) rfl
  have hcell : List.Forall₂ (Value.LinkedEntry ρ) [("cell", .object ⟨cell, 0⟩)]
      [("cell", .object ⟨cell, 1⟩)] := .cons ⟨rfl, .object rfl⟩ .nil
  have hp : compile "println cell.value; cell.value" = .ok p := by cbv
  have halone : (price.prepareAfresh types own (.buffer "") 0 [("cell", .object ⟨cell, 0⟩)]).1 = .ok "7" := by
    rw [Query.prepareAfresh, hp]
    decide +kernel
  have htext : (price.prepareAfresh types own (.buffer "") 0 [("cell", .object ⟨cell, 0⟩)]).2.printed = "7\n" := by
    rw [Query.prepareAfresh, hp]
    decide +kernel
  obtain ⟨⟨keys, hnodup, hkeys, hcount⟩, hnone, -, hruns⟩ := answers_afresh htypes .empty (.buffer "") history
  have hrun : Repeats ρ Eq (price.prepareAfresh types own (.buffer "") 0 [("cell", .object ⟨cell, 0⟩)]) answer :=
    (hruns price _ hlatest ρ own 0 hown).1 _ _ hcell
  have hperm : keys.Perm [("shop", "price")] := by
    refine (List.perm_ext_iff_of_nodup hnodup (List.nodup_singleton _)).2 fun key => ?_
    rw [hkeys, List.mem_singleton]
    constructor
    · rintro ⟨q, since, hl, rfl, -⟩
      have hmem : q = price ∨ q = { price with source := "1" } := by simpa [history] using hl.register_mem
      rcases hmem with rfl | rfl <;> rfl
    · rintro rfl
      exact ⟨price, _, hlatest, rfl, ⟨_, .tail _ (.head _), rfl⟩, p, hp⟩
  refine ⟨?_, ?_, hcount.trans hperm.length_eq, ?_⟩
  · rw [← hrun.result.eq, halone]
  · rw [hrun.printed, htext]
    rfl
  · have hnever : ∀ q, .register q ∈ history → q.key ≠ ("shop", "name") := by
      simp [history, price, Query.key]
    rw [((hnone "shop" "name") hnever).1]

end Catalog

end QueryTemplate
