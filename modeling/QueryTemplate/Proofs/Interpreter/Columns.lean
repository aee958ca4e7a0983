import QueryTemplate.Proofs.Interpreter.Process
import QueryTemplate.Proofs.Scope.Walk

/-!
# The columns that a mapper sees

The body of a mapper begins in a scope with two kinds of names: a reference for each column of the row, and the
parameters. They are bound on different routes. A parameter is the first column of its name, whatever the case of the
letters; a reference is the last column of exactly its name, unless a parameter is spelt like it. So a parameter and the
reference of its name agree where all columns of the name have one value (`Interpreter.BodyBegins.seesColumns`), and
need not agree in a row with several, be it that their names differ in case only (`key_and_reference_disagree`).
-/

namespace QueryTemplate

open Process

/-! ## Names bound in order -/

/-- A name has the value that it was given last. -/
theorem Bindings.find?_insertAll {α : Type} (b : Bindings α) (entries : List (String × α)) (name : String) :
    (b.insertAll entries).find? name = (entries.reverse.lookup name).or (b.find? name) := by
  induction entries generalizing b with
  | nil => rfl
  | cons e entries ih =>
    have hcons : b.insertAll (e :: entries) = (b.insert e.1 e.2).insertAll entries := rfl
    rw [hcons, ih, find?_insert, List.reverse_cons, List.lookup_append, Option.or_assoc]
    congr 1
    by_cases h : name = e.1
    · rw [if_pos h, h, List.lookup_cons_self]
      rfl
    · rw [if_neg h, lookup_cons_of_ne _ _ h]
      rfl

/-- In a scope that has just been entered its own names are found first. -/
theorem Machine.lookup_enter {m : Machine} (hm : m.scopes.Consistent) (parent : ScopeId)
    {bindings : List (String × Value)} {name : String} {v : Value} (h : bindings.reverse.lookup name = some v) :
    (m.enter parent bindings).scopes.lookup (m.enter parent bindings).current name = some v := by
  obtain ⟨-, -, -, hnew, -⟩ := EvalM.enter_spec hm parent bindings
  have hfind : (Bindings.empty.insertAll bindings).find? name = some v := by
    rw [Bindings.find?_insertAll, h]
    rfl
  have hslot := (Array.getElem?_eq_some_iff.1 (ScopeStore.scope?_eq_some.1 hnew)).1
  obtain ⟨count, hcount⟩ : ∃ count, (m.enter parent bindings).scopes.slots.size = count + 1 :=
    ⟨_, (Nat.succ_pred_eq_of_pos (Nat.zero_lt_of_lt hslot)).symm⟩
  have hbinder : (m.enter parent bindings).scopes.binder? (m.enter parent bindings).current name =
      some ((m.enter parent bindings).current, ⟨some parent, Bindings.empty.insertAll bindings⟩) := by
    rw [ScopeStore.binder?, hcount, ScopeStore.binderWithin_of_live hnew, if_pos]
    rw [Bindings.contains, hfind]
    rfl
  rw [ScopeStore.lookup, hbinder]
  exact hfind

/-! ## Columns by name -/

namespace Row

/-- The last column that has exactly this name. -/
def lastNamed? (row : Row) (name : String) : Option Column := row.reverse.find? fun c => c.name == name

variable {row : Row} {name : String} {c : Column}

theorem findColumn?_eq_some (h : row.findColumn? name = some c) : c ∈ row ∧ sameName c.name name = true := by
  rw [findColumn?] at h
  have hname := List.find?_some h
  exact ⟨List.mem_of_find?_eq_some h, hname⟩

theorem lastNamed?_eq_some (h : row.lastNamed? name = some c) : c ∈ row ∧ c.name = name := by
  rw [lastNamed?] at h
  have hname := List.find?_some h
  exact ⟨List.mem_reverse.1 (List.mem_of_find?_eq_some h), beq_iff_eq.1 hname⟩

theorem exists_lastNamed (h : c ∈ row) : ∃ d, row.lastNamed? c.name = some d :=
  Option.isSome_iff_exists.1 (List.find?_isSome.2 ⟨c, List.mem_reverse.2 h, beq_self_eq_true _⟩)

theorem reference_inj {a b : String} : reference a = reference b ↔ a = b := String.append_right_inj "#"

theorem sameName_self (name : String) : sameName name name = true := beq_self_eq_true _

theorem lookup_bindings (row : Row) (name : String) :
    row.bindings.reverse.lookup (reference name) = (row.lastNamed? name).map Column.value := by
  rw [bindings, ← List.map_reverse, lastNamed?]
  induction row.reverse with
  | nil => rfl
  | cons c cs ih =>
    rw [List.map_cons, List.find?_cons]
    by_cases h : c.name = name
    · rw [h, List.lookup_cons_self, beq_self_eq_true]
      rfl
    · rw [Bindings.lookup_cons_of_ne _ _ fun he => h (reference_inj.1 he.symm), beq_false_of_ne h, ih]

end Row

/-- The parameters are bound to the first columns of their names. -/
theorem Interpreter.lookup_keyBindings {row : Row} {ps : List Ident} {keys : List (String × Value)}
    (h : keyBindings row ps = .ok keys) (name : String) : keys.reverse.lookup name =
      if name ∈ ps.map Ident.name then (row.findColumn? name).map Column.value else none := by
  induction ps generalizing keys with
  | nil =>
    cases h
    rfl
  | cons p ps ih =>
    rw [keyBindings] at h
    cases hc : row.findColumn? p.name with
    | none =>
      rw [hc] at h
      cases h
    | some c =>
      rw [hc] at h
      cases hk : keyBindings row ps with
      | error e =>
        rw [hk] at h
        cases h
      | ok rest =>
        rw [hk] at h
        cases h
        rw [List.reverse_cons, List.lookup_append, ih hk]
        by_cases hname : name = p.name
        · subst hname
          have hmem : p.name ∈ (p :: ps).map Ident.name := List.mem_cons_self
          rw [List.lookup_cons_self, hc, if_pos hmem]
          split <;> rfl
        · rw [Bindings.lookup_cons_of_ne _ _ hname, List.lookup_nil, Option.or_none]
          simp [hname]

/-- Every parameter has a column. -/
theorem Interpreter.exists_column {row : Row} {ps : List Ident} {keys : List (String × Value)}
    (h : keyBindings row ps = .ok keys) : ∀ p ∈ ps, ∃ c, row.findColumn? p.name = some c := by
  induction ps generalizing keys with
  | nil => exact List.forall_mem_nil _
  | cons p ps ih =>
    rw [keyBindings] at h
    cases hc : row.findColumn? p.name with
    | none =>
      rw [hc] at h
      cases h
    | some c =>
      rw [hc] at h
      cases hk : keyBindings row ps with
      | error e =>
        rw [hk] at h
        cases h
      | ok rest => exact List.forall_mem_cons.2 ⟨⟨c, hc⟩, ih hk⟩

/-! ## The body begins -/

/-- Whether `m` is the state in which the body of a mapper begins that is applied to a row. -/
def Interpreter.BodyBegins (i : Interpreter) (f : Closure) (row : Row) (m : Machine) : Prop :=
  ∃ a, Step i.types i.callLimit (start (Request.mapRow (.mapper f) row).plan i.machine) ⟨.doing f.plan, [.call a], m⟩

/-- The values that the body of a mapper finds under the names of its parameters and under references. -/
structure Machine.SeesColumns (m : Machine) (f : Closure) (row : Row) : Prop where
  /-- A parameter is the first column of its name, whatever the case. -/
  key : ∀ p ∈ f.declaration.parameters, ∃ c, row.findColumn? p.name = some c ∧
    m.scopes.lookup m.current p.name = some c.value
  /-- A reference is the last column of its name. -/
  reference : ∀ c ∈ row, Row.reference c.name ∉ f.declaration.parameters.map Ident.name →
    ∃ d, row.lastNamed? c.name = some d ∧ m.scopes.lookup m.current (Row.reference c.name) = some d.value
  /-- The two are the same where the columns of the name, whatever the case, have one value. -/
  agree : ∀ p ∈ f.declaration.parameters, Row.reference p.name ∉ f.declaration.parameters.map Ident.name →
    ∀ c ∈ row, c.name = p.name → (∀ d ∈ row, Row.sameName d.name p.name = true → d.value = c.value) →
      m.scopes.lookup m.current p.name = some c.value ∧
        m.scopes.lookup m.current (Row.reference p.name) = some c.value

namespace Interpreter.BodyBegins

variable {i : Interpreter} {f : Closure} {row : Row} {m : Machine}

/-- The body begins in a new scope with the columns and the parameters. -/
theorem exists_keys (h : i.BodyBegins f row m) : ∃ keys, keyBindings row f.declaration.parameters = .ok keys ∧
    m = i.machine.begin.enter f.scope (row.bindings ++ keys) := by
  obtain ⟨a, h⟩ := h
  cases hk : keyBindings row f.declaration.parameters with
  | error e =>
    simp only [start, Request.plan, hk] at h
    generalize f.plan = x at h
    cases h
  | ok keys =>
    simp only [start, Request.plan, hk] at h
    cases h
    exact ⟨keys, rfl, rfl⟩

/-- A name has the value that the parameters give it, else the one that the references give it. -/
theorem lookup_eq {stack : List ScopeId} (hreached : Machine.Reached i.types i.callLimit stack i.machine)
    (h : i.BodyBegins f row m) {name : String} {v : Value}
    (hv : (if name ∈ f.declaration.parameters.map Ident.name then (row.findColumn? name).map Column.value else none).or
      (row.bindings.reverse.lookup name) = some v) : m.scopes.lookup m.current name = some v := by
  obtain ⟨keys, hkeys, rfl⟩ := h.exists_keys
  have hconsistent : i.machine.begin.scopes.Consistent := hreached.stacked.consistent
  refine Machine.lookup_enter hconsistent f.scope ?_
  rwa [List.reverse_append, List.lookup_append, lookup_keyBindings hkeys]

theorem seesColumns {stack : List ScopeId} (hreached : Machine.Reached i.types i.callLimit stack i.machine)
    (h : i.BodyBegins f row m) : m.SeesColumns f row := by
  have key : ∀ p ∈ f.declaration.parameters, ∃ c, row.findColumn? p.name = some c ∧
      m.scopes.lookup m.current p.name = some c.value := by
    intro p hp
    obtain ⟨_, hkeys, -⟩ := h.exists_keys
    obtain ⟨c, hc⟩ := exists_column hkeys p hp
    refine ⟨c, hc, h.lookup_eq hreached ?_⟩
    rw [if_pos (List.mem_map_of_mem hp), hc]
    rfl
  have reference : ∀ c ∈ row, Row.reference c.name ∉ f.declaration.parameters.map Ident.name →
      ∃ d, row.lastNamed? c.name = some d ∧ m.scopes.lookup m.current (Row.reference c.name) = some d.value := by
    intro c hc hname
    obtain ⟨d, hd⟩ := Row.exists_lastNamed hc
    refine ⟨d, hd, h.lookup_eq hreached ?_⟩
    rw [if_neg hname, Row.lookup_bindings, hd]
    rfl
  refine ⟨key, reference, fun p hp hname c hc hcname hvalue => ?_⟩
  obtain ⟨first, hfirst, hkey⟩ := key p hp
  obtain ⟨last, hlast, hreference⟩ := reference c hc (hcname ▸ hname)
  obtain ⟨hfirstMem, hfirstName⟩ := Row.findColumn?_eq_some hfirst
  obtain ⟨hlastMem, hlastName⟩ := Row.lastNamed?_eq_some hlast
  have hlastSame : Row.sameName last.name p.name = true := by
    rw [hlastName, hcname]
    exact Row.sameName_self _
  rw [hvalue first hfirstMem hfirstName] at hkey
  rw [hvalue last hlastMem hlastSame, hcname] at hreference
  exact ⟨hkey, hreference⟩

end Interpreter.BodyBegins

/-- The body of `m(id)` on a row with one column. -/
theorem key_and_reference_agree :
    let f : Closure := ⟨0, ⟨⟨"m", .nowhere⟩, [⟨"id", .nowhere⟩], []⟩, ScopeStore.global⟩
    let i := Interpreter.fresh .empty 1 .empty .silent
    let row : Row := [⟨"id", .integer, .int 1⟩]
    ∃ m, i.BodyBegins f row m ∧ m.SeesColumns f row := by
  intro f i row
  have hbegins : i.BodyBegins f row (i.machine.begin.enter f.scope (row.bindings ++ [("id", .int 1)])) :=
    ⟨_, .call rfl (by decide)⟩
  exact ⟨_, hbegins, hbegins.seesColumns (.fresh .empty .silent 0)⟩

/-- The body of `m(id)` on a row with columns whose names differ in case. -/
theorem key_and_reference_disagree :
    let f : Closure := ⟨0, ⟨⟨"m", .nowhere⟩, [⟨"id", .nowhere⟩], []⟩, ScopeStore.global⟩
    let i := Interpreter.fresh .empty 1 .empty .silent
    let row : Row := [⟨"ID", .integer, .int 1⟩, ⟨"id", .integer, .int 2⟩]
    ∃ m, i.BodyBegins f row m ∧ m.scopes.lookup m.current "id" = some (.int 1) ∧
      m.scopes.lookup m.current "#id" = some (.int 2) := by
  intro f i row
  have hbegins : i.BodyBegins f row (i.machine.begin.enter f.scope (row.bindings ++ [("id", .int 1)])) :=
    ⟨_, .call rfl (by decide)⟩
  refine ⟨_, hbegins, ?_, ?_⟩
  · exact hbegins.lookup_eq (.fresh .empty .silent 0) rfl
  · exact hbegins.lookup_eq (.fresh .empty .silent 0) rfl

end QueryTemplate
