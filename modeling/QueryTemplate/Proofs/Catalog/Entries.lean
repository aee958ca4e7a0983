import Mathlib.Data.List.Nodup
import QueryTemplate.Catalog

/-!
# What a catalogue keeps

What has been done with a catalogue is a history (`CatalogEvent`). The entries of the catalogue are determined by it:
for each entity and name there is the query that was registered last (`Latest`), with its tree if it has been run since
and its source is a template (`Catalog.Coherent`). So queries count as compiled exactly if they were run since they were
registered last and could be compiled (`Catalog.Coherent.compiledCount_eq`).

Every event keeps this (`Catalog.Coherent.perform`), whether it fails or not. A fault of the source leaves the entry as
it was, and a fault of the run comes too late to.
-/

namespace QueryTemplate

/-! ## Histories -/

/-- The entity and the name of a query. -/
def Query.key (q : Query) : String × String := (q.entity, q.name)

/-- What is done with a catalogue. -/
inductive CatalogEvent
  | register (q : Query)
  | prepare (entity name : String) (parameters : List (String × Value))
  | mapRows (entity name : String) (rows : List Row)
  /-- The surrounding program works on its objects, takes what has been printed, or runs templates elsewhere. -/
  | surroundings (heap : Heap) (output : Output) (declarations : Nat)

namespace CatalogEvent

/-- Whether a query is registered in place of the given one. -/
def replaces (q : Query) : CatalogEvent → Bool
  | register q' => q'.key == q.key
  | _ => false

/-- Whether a run of the query is asked for. Mapping rows asks for one only if the query declares a mapper. -/
def runs (q : Query) : CatalogEvent → Bool
  | prepare entity name _ => q.key == (entity, name)
  | mapRows entity name _ => q.key == (entity, name) && q.mapper.isSome
  | _ => false

end CatalogEvent

/-- The query is the one that was registered last for its entity and name, and this has been done since. In a history
the last event comes first. -/
inductive Latest (q : Query) : (history since : List CatalogEvent) → Prop
  | registered (past : List CatalogEvent) : Latest q (.register q :: past) []
  | later {past since : List CatalogEvent} (h : Latest q past since) {e : CatalogEvent} (he : e.replaces q = false) :
    Latest q (e :: past) (e :: since)

/-- The query that was registered last for an entity and a name has been run since, and it could be compiled. -/
def Compiled (history : List CatalogEvent) (key : String × String) : Prop :=
  ∃ q since, Latest q history since ∧ q.key = key ∧ (∃ e ∈ since, e.runs q = true) ∧ ∃ p, compile q.source = .ok p

namespace Catalog

/-- Do something with a catalogue. -/
def perform (c : Catalog) : CatalogEvent → Catalog
  | .register q => c.register q
  | .prepare entity name parameters => (c.prepare entity name parameters).2
  | .mapRows entity name rows => (c.mapRows entity name rows).2
  | .surroundings heap output declarations => { c with heap, output, declarations }

/-- A catalogue after a history. -/
def replay (c : Catalog) (history : List CatalogEvent) : Catalog := history.foldr (fun e c => c.perform e) c

end Catalog

section

variable {q : Query} {history since : List CatalogEvent} {e : CatalogEvent}

theorem Latest.register_mem (h : Latest q history since) : .register q ∈ history := by
  induction h with
  | registered past => exact List.mem_cons_self
  | later _ _ ih => exact List.mem_cons_of_mem _ ih

theorem latest_register_iff {q' : Query} : Latest q (.register q' :: history) since ↔
    (q = q' ∧ since = []) ∨
      q'.key ≠ q.key ∧ ∃ since', since = .register q' :: since' ∧ Latest q history since' := by
  constructor
  · intro h
    cases h with
    | registered => exact .inl ⟨rfl, rfl⟩
    | later h he => exact .inr ⟨beq_eq_false_iff_ne.1 he, _, rfl, h⟩
  · rintro (⟨rfl, rfl⟩ | ⟨hkey, _, rfl, h⟩)
    · exact .registered _
    · exact .later h (beq_eq_false_iff_ne.2 hkey)

/-- Of the queries that were registered for an entity and a name, one was the last. -/
theorem exists_latest {q : Query} (h : .register q ∈ history) :
    ∃ q' since, Latest q' history since ∧ q'.key = q.key := by
  induction history with
  | nil => cases h
  | cons x past ih =>
    have hpast : ∀ {q' since}, Latest q' past since → q'.key = q.key →
        ∃ q' since, Latest q' (x :: past) since ∧ q'.key = q.key := by
      intro q' since hlatest hkey
      cases hx : x.replaces q' with
      | false => exact ⟨q', _, .later hlatest hx, hkey⟩
      | true =>
        cases x with
        | register q'' => exact ⟨q'', _, .registered past, (beq_iff_eq.1 hx).trans hkey⟩
        | _ => cases hx
    rcases List.mem_cons.1 h with rfl | h
    · exact ⟨q, _, .registered past, rfl⟩
    · obtain ⟨q', since, hlatest, hkey⟩ := ih h
      exact hpast hlatest hkey

theorem latest_cons_iff (he : ∀ q', e ≠ .register q') : Latest q (e :: history) since ↔
    ∃ since', since = e :: since' ∧ Latest q history since' := by
  constructor
  · intro h
    cases h with
    | registered => exact absurd rfl (he q)
    | later h => exact ⟨_, rfl, h⟩
  · rintro ⟨_, rfl, h⟩
    refine .later h ?_
    cases e with
    | register q' => exact absurd rfl (he q')
    | _ => rfl

end

/-! ## Entries -/

/-- A function that changes no member of a list has the same members for its values. -/
theorem mem_iff_of_fixed {α : Type} {l : List α} {f : α → α} (hf : ∀ a ∈ l, f a = a) (a : α) :
    a ∈ l ↔ ∃ b ∈ l, a = f b := by
  constructor
  · exact fun ha => ⟨a, ha, (hf a ha).symm⟩
  · rintro ⟨b, hb, rfl⟩
    rwa [hf b hb]

/-- The tree that is kept of a query after it has been registered and this has been done. -/
def Query.programAfter (q : Query) (since : List CatalogEvent) : Option Program :=
  if since.any (·.runs q) then (compile q.source).toOption else none

theorem Query.programAfter_cons (q : Query) (e : CatalogEvent) (since : List CatalogEvent) :
    q.programAfter (e :: since) = if e.runs q then (compile q.source).toOption else q.programAfter since := by
  unfold programAfter
  rw [List.any_cons]
  cases e.runs q <;> rfl

theorem Query.programAfter_isSome {q : Query} {since : List CatalogEvent} : (q.programAfter since).isSome = true ↔
    (∃ e ∈ since, e.runs q = true) ∧ ∃ p, compile q.source = .ok p := by
  unfold programAfter
  rw [← List.any_eq_true]
  cases since.any (·.runs q) with
  | false => simp
  | true => cases compile q.source <;> simp [Except.toOption]

namespace CatalogEntry

theorem isFor_iff {e : CatalogEntry} {entity name : String} :
    e.isFor entity name = true ↔ e.query.key = (entity, name) := by
  simp [isFor, Query.key]

/-- The entry after the tree for an entity and a name has been asked for. -/
def triedFor (key : String × String) (e : CatalogEntry) : CatalogEntry :=
  if e.query.key = key then { e with program := (compile e.query.source).toOption } else e

variable {key : String × String} {e : CatalogEntry}

theorem triedFor_of_eq (h : e.query.key = key) :
    e.triedFor key = { e with program := (compile e.query.source).toOption } := if_pos h

theorem triedFor_of_ne (h : e.query.key ≠ key) : e.triedFor key = e := if_neg h

end CatalogEntry

namespace Catalog

/-- The entries are those that a history leaves. -/
structure Coherent (c : Catalog) (history : List CatalogEvent) : Prop where
  nodup : (c.entries.map fun e => e.query.key).Nodup
  entry : ∀ e, e ∈ c.entries ↔ ∃ since, Latest e.query history since ∧ e.program = e.query.programAfter since

theorem mem_put (c : Catalog) (e e' : CatalogEntry) :
    e' ∈ (c.put e).entries ↔ e' = e ∨ e' ∈ c.entries ∧ e'.query.key ≠ e.query.key := by
  rw [put, List.mem_cons, List.mem_filter, Bool.not_eq_true', ← Bool.not_eq_true, CatalogEntry.isFor_iff]
  rfl

theorem nodup_put {c : Catalog} (h : (c.entries.map fun e => e.query.key).Nodup) (e : CatalogEntry) :
    ((c.put e).entries.map fun e => e.query.key).Nodup := by
  rw [put, List.map_cons, List.nodup_cons]
  refine ⟨fun hm => ?_, h.sublist (List.filter_sublist.map _)⟩
  obtain ⟨e', he', hkey⟩ := List.mem_map.1 hm
  rw [List.mem_filter, Bool.not_eq_true', ← Bool.not_eq_true, CatalogEntry.isFor_iff] at he'
  exact he'.2 hkey

namespace Coherent

variable {c : Catalog} {history since : List CatalogEvent} {q : Query}

theorem new (types : Registry) (heap : Heap) (output : Output) : (Catalog.new types heap output).Coherent [] where
  nodup := List.nodup_nil
  entry _ := iff_of_false List.not_mem_nil fun ⟨_, h, _⟩ => nomatch h

theorem eq_of_key (h : c.Coherent history) {e e' : CatalogEntry} (he : e ∈ c.entries) (he' : e' ∈ c.entries)
    (hkey : e.query.key = e'.query.key) : e = e' :=
  List.inj_on_of_nodup_map h.nodup he he' hkey

/-- The entry of a query that was registered last. -/
theorem entry?_eq (h : c.Coherent history) (hq : Latest q history since) :
    c.entry? q.entity q.name = some ⟨q, q.programAfter since⟩ := by
  have hmem : ⟨q, q.programAfter since⟩ ∈ c.entries := (h.entry _).2 ⟨since, hq, rfl⟩
  cases hfind : c.entry? q.entity q.name with
  | none => exact absurd (CatalogEntry.isFor_iff.2 rfl) (List.find?_eq_none.1 hfind _ hmem)
  | some e =>
    have hkey := CatalogEntry.isFor_iff.1 (List.find?_some hfind)
    rw [h.eq_of_key (List.mem_of_find?_eq_some hfind) hmem hkey]

/-- There is no entry if no query was registered. -/
theorem entry?_none (h : c.Coherent history) {entity name : String}
    (hnone : ∀ q, .register q ∈ history → q.key ≠ (entity, name)) : c.entry? entity name = none := by
  cases hfind : c.entry? entity name with
  | none => rfl
  | some e =>
    obtain ⟨since, hlatest, -⟩ := (h.entry e).1 (List.mem_of_find?_eq_some hfind)
    exact absurd (CatalogEntry.isFor_iff.1 (List.find?_some hfind)) (hnone _ hlatest.register_mem)

/-- A tree that is kept is that of the source. -/
theorem program_eq (h : c.Coherent history) {e : CatalogEntry} (he : e ∈ c.entries) {p : Program}
    (hp : e.program = some p) : compile e.query.source = .ok p := by
  obtain ⟨since, -, hprogram⟩ := (h.entry e).1 he
  rw [hp, Query.programAfter] at hprogram
  split at hprogram
  · cases hc : compile e.query.source with
    | ok p' =>
      rw [hc] at hprogram
      cases hprogram
      rfl
    | error f =>
      rw [hc] at hprogram
      cases hprogram
  · cases hprogram

/-- Asking for the tree of a query changes no entry but its own, which has the tree afterwards. -/
theorem mem_program (h : c.Coherent history) (entity name : String) (e : CatalogEntry) :
    e ∈ (c.program entity name).2.entries ↔ ∃ e₀ ∈ c.entries, e = e₀.triedFor (entity, name) := by
  cases hentry : c.entry? entity name with
  | none =>
    simp only [program, hentry]
    refine mem_iff_of_fixed (fun e₀ he₀ => CatalogEntry.triedFor_of_ne fun hkey => ?_) e
    exact List.find?_eq_none.1 hentry e₀ he₀ (CatalogEntry.isFor_iff.2 hkey)
  | some e₁ =>
    have he₁ : e₁ ∈ c.entries := List.mem_of_find?_eq_some hentry
    have hkey : e₁.query.key = (entity, name) := CatalogEntry.isFor_iff.1 (List.find?_some hentry)
    have hother : ∀ e₀ ∈ c.entries, e₀ = e₁ ∨ e₀.query.key ≠ (entity, name) := by
      intro e₀ he₀
      by_cases hk : e₀.query.key = (entity, name)
      · exact .inl (h.eq_of_key he₀ he₁ (hk.trans hkey.symm))
      · exact .inr hk
    have hfix : (compile e₁.query.source).toOption = e₁.program →
        ∀ e₀ ∈ c.entries, e₀.triedFor (entity, name) = e₀ := by
      intro hprogram e₀ he₀
      rcases hother e₀ he₀ with rfl | hne
      · rw [CatalogEntry.triedFor_of_eq hkey, hprogram]
      · exact CatalogEntry.triedFor_of_ne hne
    cases hp : e₁.program with
    | some p =>
      simp only [program, hentry, hp]
      exact mem_iff_of_fixed (hfix (by rw [h.program_eq he₁ hp, hp]; rfl)) e
    | none =>
      cases hc : compile e₁.query.source with
      | error f =>
        simp only [program, hentry, hp, hc]
        exact mem_iff_of_fixed (hfix (by rw [hc, hp]; rfl)) e
      | ok p =>
        have htried : e₁.triedFor (entity, name) = { e₁ with program := some p } := by
          rw [CatalogEntry.triedFor_of_eq hkey, hc]
          rfl
        simp only [program, hentry, hp, hc, mem_put]
        constructor
        · rintro (rfl | ⟨he, hne⟩)
          · exact ⟨e₁, he₁, htried.symm⟩
          · exact ⟨e, he, (CatalogEntry.triedFor_of_ne fun hk => hne (hk.trans hkey.symm)).symm⟩
        · rintro ⟨e₀, he₀, rfl⟩
          rcases hother e₀ he₀ with rfl | hne
          · exact .inl htried
          · rw [CatalogEntry.triedFor_of_ne hne]
            exact .inr ⟨he₀, fun hk => hne (hk.trans hkey)⟩

/-- The answer for a query that was registered last is its tree, or the fault of its source. -/
theorem program_latest (h : c.Coherent history) (hq : Latest q history since) : ∃ entries,
    c.program q.entity q.name = ((compile q.source).mapError QueryError.compilation, { c with entries }) := by
  have hentry := h.entry?_eq hq
  cases hp : q.programAfter since with
  | some p =>
    rw [hp] at hentry
    have hcompile : compile q.source = .ok p := h.program_eq (List.mem_of_find?_eq_some hentry) rfl
    exact ⟨c.entries, by simp only [program, hentry, hcompile, Except.mapError]⟩
  | none =>
    rw [hp] at hentry
    cases hc : compile q.source with
    | ok p =>
      refine ⟨(c.put ⟨q, some p⟩).entries, ?_⟩
      simp only [program, hentry, hc, Except.mapError]
      rfl
    | error f => exact ⟨c.entries, by simp only [program, hentry, hc, Except.mapError]⟩

end Coherent

/-! ## What events do to the entries -/

section

variable (c : Catalog) (entity name : String)

/-- Asking for a tree puts at most one entry in place of another. -/
theorem program_rest : (c.program entity name).2 = c ∨ ∃ e, (c.program entity name).2 = c.put e := by
  unfold program
  split
  · exact .inl rfl
  · split
    · exact .inl rfl
    · split
      · exact .inr ⟨_, rfl⟩
      · exact .inl rfl

theorem program_types : (c.program entity name).2.types = c.types := by
  rcases c.program_rest entity name with h | ⟨e, h⟩ <;> rw [h]
  rfl

theorem nodup_program (h : (c.entries.map fun e => e.query.key).Nodup) :
    ((c.program entity name).2.entries.map fun e => e.query.key).Nodup := by
  rcases c.program_rest entity name with hc | ⟨e, hc⟩
  · rwa [hc]
  · rw [hc]
    exact nodup_put h e

theorem prepare_rest (parameters : List (String × Value)) : ∃ heap output declarations,
    (c.prepare entity name parameters).2 = { (c.program entity name).2 with heap, output, declarations } := by
  unfold prepare
  obtain ⟨r, c'⟩ := c.program entity name
  cases r with
  | error e => exact ⟨c'.heap, c'.output, c'.declarations, rfl⟩
  | ok p =>
    simp only
    obtain ⟨r, i⟩ := (c'.interpreter.defineAll parameters).execute p
    cases r <;> exact ⟨_, _, i.machine.declarations, rfl⟩

/-- The tree is asked for only if a mapper is declared. -/
theorem mapRows_rest (rows : List Row) :
    ((∀ q, c.query? entity name = some q → q.mapper = none) ∧ (c.mapRows entity name rows).2 = c) ∨
    (∃ q mapper, c.query? entity name = some q ∧ q.mapper = some mapper) ∧ ∃ heap output declarations,
      (c.mapRows entity name rows).2 = { (c.program entity name).2 with heap, output, declarations } := by
  unfold mapRows
  cases hq : c.query? entity name with
  | none => exact .inl ⟨nofun, rfl⟩
  | some q =>
    cases hm : q.mapper with
    | none => exact .inl ⟨fun q' h => Option.some.inj h ▸ hm, by simp only [hm]⟩
    | some mapper =>
      refine .inr ⟨⟨q, mapper, rfl, hm⟩, ?_⟩
      simp only [hm]
      obtain ⟨r, c'⟩ := c.program entity name
      cases r with
      | error e => exact ⟨c'.heap, c'.output, c'.declarations, rfl⟩
      | ok p =>
        simp only
        obtain ⟨r, i⟩ := c'.interpreter.execute p
        cases r with
        | error e => exact ⟨_, _, i.machine.declarations, rfl⟩
        | ok v =>
          simp only
          cases mapperOf i entity name mapper with
          | error e => exact ⟨_, _, i.machine.declarations, rfl⟩
          | ok m =>
            simp only
            obtain ⟨r, j⟩ := i.mapRows m rows
            cases r <;> exact ⟨_, _, j.machine.declarations, rfl⟩

theorem perform_types (x : CatalogEvent) : (c.perform x).types = c.types := by
  cases x with
  | register q => rfl
  | surroundings => rfl
  | prepare entity name parameters =>
    obtain ⟨heap, output, declarations, h⟩ := c.prepare_rest entity name parameters
    rw [perform, h]
    exact c.program_types entity name
  | mapRows entity name rows =>
    rcases c.mapRows_rest entity name rows with ⟨-, h⟩ | ⟨-, heap, output, declarations, h⟩
    · rw [perform, h]
    · rw [perform, h]
      exact c.program_types entity name

theorem replay_types (history : List CatalogEvent) : (c.replay history).types = c.types := by
  induction history with
  | nil => rfl
  | cons x history ih => exact (perform_types _ x).trans ih

end

namespace Coherent

variable {c d : Catalog} {history : List CatalogEvent} {x : CatalogEvent}

theorem register (h : c.Coherent history) (q : Query) : (c.register q).Coherent (.register q :: history) where
  nodup := nodup_put h.nodup ⟨q, none⟩
  entry e := by
    rw [Catalog.register, mem_put]
    constructor
    · rintro (rfl | ⟨he, hne⟩)
      · exact ⟨[], .registered history, rfl⟩
      · obtain ⟨since, hl, hp⟩ := (h.entry e).1 he
        exact ⟨_, latest_register_iff.2 (.inr ⟨hne.symm, since, rfl, hl⟩), by rw [Query.programAfter_cons, hp]; rfl⟩
    · rintro ⟨since, hl, hp⟩
      rcases latest_register_iff.1 hl with ⟨rfl, rfl⟩ | ⟨hne, since, rfl, hlatest⟩
      · exact .inl (by rw [← show e.program = none from hp])
      · exact .inr ⟨(h.entry e).2 ⟨since, hlatest, hp.trans (e.query.programAfter_cons _ _)⟩, hne.symm⟩

/-- An event that registers nothing asks for the trees of some entries. -/
theorem of_runs (h : c.Coherent history) (hx : ∀ q, x ≠ .register q)
    (hnodup : (d.entries.map fun e => e.query.key).Nodup)
    (hentries : ∀ e, e ∈ d.entries ↔ ∃ e₀ ∈ c.entries,
      e = ⟨e₀.query, if x.runs e₀.query then (compile e₀.query.source).toOption else e₀.program⟩) :
    d.Coherent (x :: history) where
  nodup := hnodup
  entry e := by
    rw [hentries]
    constructor
    · rintro ⟨e₀, he₀, rfl⟩
      obtain ⟨since, hl, hp⟩ := (h.entry e₀).1 he₀
      exact ⟨_, (latest_cons_iff hx).2 ⟨since, rfl, hl⟩, by rw [Query.programAfter_cons, hp]⟩
    · rintro ⟨_, hl, hp⟩
      obtain ⟨since, rfl, hlatest⟩ := (latest_cons_iff hx).1 hl
      refine ⟨⟨e.query, e.query.programAfter since⟩, (h.entry _).2 ⟨since, hlatest, rfl⟩, ?_⟩
      rw [← Query.programAfter_cons, ← hp]

/-- One that asks for no tree changes no entry. -/
theorem idle (h : c.Coherent history) (hx : ∀ q, x ≠ .register q) (hruns : ∀ e ∈ c.entries, x.runs e.query = false)
    (hd : d.entries = c.entries) : d.Coherent (x :: history) := by
  refine h.of_runs hx (hd ▸ h.nodup) fun e => ?_
  rw [hd]
  refine mem_iff_of_fixed (fun e he => ?_) e
  rw [hruns e he]
  rfl

theorem asked (h : c.Coherent history) (hx : ∀ q, x ≠ .register q) {entity name : String}
    (hruns : ∀ e ∈ c.entries, x.runs e.query = (e.query.key == (entity, name)))
    (hd : d.entries = (c.program entity name).2.entries) : d.Coherent (x :: history) := by
  refine h.of_runs hx (hd ▸ nodup_program c entity name h.nodup) fun e => ?_
  rw [hd, h.mem_program]
  refine exists_congr fun e₀ => and_congr_right fun he₀ => ?_
  have htried : e₀.triedFor (entity, name) =
      ⟨e₀.query, if x.runs e₀.query then (compile e₀.query.source).toOption else e₀.program⟩ := by
    simp only [CatalogEntry.triedFor, hruns e₀ he₀, beq_iff_eq]
    split <;> rfl
  rw [htried]

theorem perform (h : c.Coherent history) (x : CatalogEvent) : (c.perform x).Coherent (x :: history) := by
  cases x with
  | register q => exact h.register q
  | surroundings => exact h.idle nofun (fun _ _ => rfl) rfl
  | prepare entity name parameters =>
    obtain ⟨heap, output, declarations, hd⟩ := c.prepare_rest entity name parameters
    exact h.asked nofun (fun _ _ => rfl) (by rw [Catalog.perform, hd])
  | mapRows entity name rows =>
    have hquery : ∀ e ∈ c.entries, e.query.key = (entity, name) → c.query? entity name = some e.query := by
      intro e he hkey
      obtain ⟨since, hl, -⟩ := (h.entry e).1 he
      obtain ⟨rfl, rfl⟩ := Prod.mk.inj hkey
      rw [query?, h.entry?_eq hl]
      rfl
    rcases c.mapRows_rest entity name rows with
      ⟨hmapper, hd⟩ | ⟨⟨q, mapper, hq, hmapper⟩, heap, output, declarations, hd⟩
    · refine h.idle nofun (fun e he => ?_) (by rw [Catalog.perform, hd])
      by_cases hkey : e.query.key = (entity, name)
      · simp [CatalogEvent.runs, hmapper _ (hquery e he hkey)]
      · simp [CatalogEvent.runs, hkey]
    · refine h.asked nofun (fun e he => ?_) (by rw [Catalog.perform, hd])
      by_cases hkey : e.query.key = (entity, name)
      · rw [hquery e he hkey] at hq
        cases hq
        simp [CatalogEvent.runs, hmapper]
      · simp [CatalogEvent.runs, hkey]

/-- The entries of a catalogue are those that its history leaves. -/
theorem replay (types : Registry) (heap : Heap) (output : Output) (history : List CatalogEvent) :
    ((Catalog.new types heap output).replay history).Coherent history := by
  induction history with
  | nil => exact new types heap output
  | cons x history ih => exact ih.perform x

/-- What is counted as compiled. -/
theorem compiledCount_eq (h : c.Coherent history) : ∃ keys : List (String × String), keys.Nodup ∧
    (∀ key, key ∈ keys ↔ Compiled history key) ∧ c.compiledCount = keys.length := by
  refine ⟨(c.entries.filter fun e => e.program.isSome).map fun e => e.query.key,
    h.nodup.sublist (List.filter_sublist.map _), fun key => ?_, ?_⟩
  · simp only [List.mem_map, List.mem_filter, h.entry]
    constructor
    · rintro ⟨e, ⟨⟨since, hl, hp⟩, hsome⟩, rfl⟩
      rw [hp] at hsome
      obtain ⟨hruns, hcompile⟩ := Query.programAfter_isSome.1 hsome
      exact ⟨e.query, since, hl, rfl, hruns, hcompile⟩
    · rintro ⟨q, since, hl, rfl, hruns, hcompile⟩
      exact ⟨⟨q, q.programAfter since⟩, ⟨⟨since, hl, rfl⟩, Query.programAfter_isSome.2 ⟨hruns, hcompile⟩⟩, rfl⟩
  · rw [compiledCount, List.countP_eq_length_filter, List.length_map]

end Coherent

end Catalog

end QueryTemplate
