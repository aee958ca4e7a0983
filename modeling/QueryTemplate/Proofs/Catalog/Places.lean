import QueryTemplate.Proofs.Catalog.Afresh
import QueryTemplate.Proofs.Excerpt
import QueryTemplate.Proofs.Interpreter.Places
import QueryTemplate.Proofs.Value.Contained

/-!
# Errors point into the template

A fault of a template that the lexer, the parser or the interpreter finds is reported at a byte of that template: the
last one, a character that starts no token, or the start of a token (`QueryError.PointsInto`). So the report against the
template quotes one of its lines. For the interpreter this holds of the runs of a catalogue if the parameters contain no
functions, as these would bring the places of another template with them, and the same goes for the objects that host
types keep for themselves (`Catalog.errors_point_into_template`).
-/

namespace QueryTemplate

/-! ## Reports -/

namespace Diagnostic

theorem length_lines (source : String) : (lines source).length = source.toList.count '\n' + 1 := by
  unfold lines
  induction source.toList with
  | nil => rfl
  | cons c cs ih =>
    rw [List.splitOn_cons_eq_if_modifyHead, List.count_cons]
    split
    · rw [List.length_cons, ih]
    · rw [List.length_modifyHead, ih]

/-- A report at a byte of a text, which quotes the line of that byte. -/
structure Quotes (source : String) (offset : Nat) (d : Diagnostic) : Prop where
  offset_lt : offset < source.utf8ByteSize
  position : d.position = (LineIndex.ofString source).position offset
  somewhere : d.position ≠ .nowhere
  excerpt : ∃ line, (lines source)[d.position.line - 1]? = some line ∧
    d.render source = toString d ++ excerpt d.position (withoutReturn line)

theorem quotes {source : String} {offset : Nat} {d : Diagnostic} (ho : offset < source.utf8ByteSize)
    (hd : d.position = (LineIndex.ofString source).position offset) : d.Quotes source offset := by
  have hpos : 0 < d.position.line := by
    rw [hd]
    exact LineIndex.line_position_pos _ _
  have hsome : d.position ≠ .nowhere := by
    intro hnone
    rw [hnone] at hpos
    cases hpos
  have hle : d.position.line ≤ source.toList.count '\n' + 1 := by
    rw [hd, LineIndex.ofString_eq]
    exact LineIndex.line_position_le _ _
  have hline : d.position.line - 1 < (lines source).length := by
    rw [length_lines]
    omega
  have hfound := List.getElem?_eq_getElem hline
  exact ⟨ho, hd, hsome, _, hfound, render_of_line hpos hfound⟩

end Diagnostic

namespace QueryError

/-- Whether a fault of a template points to a byte of it. -/
def PointsTo (source : String) (offset : Nat) : QueryError → Prop
  | compilation e => e.PointsTo source offset
  | evaluation _ => StartsToken source offset
  | _ => False

/-- Whether a fault of a template, if the error is one, is reported at a byte of it to which it points. -/
def PointsInto (source : String) (e : QueryError) : Prop :=
  ∀ d, e.diagnostic? = some d → ∃ offset, e.PointsTo source offset ∧ d.Quotes source offset

theorem pointsInto_compilation {source : String} {e : CompileError} (h : compile source = .error e) :
    (compilation e).PointsInto source := by
  rintro d ⟨⟩
  obtain ⟨offset, hpoints, hposition⟩ := compile_error_points h
  exact ⟨offset, hpoints, Diagnostic.quotes hpoints.lt hposition⟩

theorem pointsInto_evaluation {source : String} {e : EvalError} (h : TokenPosition source e.position) :
    (evaluation e).PointsInto source := by
  intro d hd
  obtain ⟨code, -, rfl⟩ := Option.map_eq_some_iff.1 hd
  obtain ⟨offset, hstarts, hposition⟩ := h
  exact ⟨offset, hstarts, Diagnostic.quotes hstarts.lt hposition⟩

end QueryError

/-! ## Runs -/

theorem compiled_placed {source : String} {p : Program} (h : compile source = .ok p) :
    Stmt.AllPlaced (TokenPosition source) p ∧ ∀ s ∈ p, s.Shaped := by
  obtain ⟨tokens, -, hp⟩ := compile_eq_ok.1 h
  exact ⟨compile_places h, parse_shaped hp⟩

/-- A link for a run of a template: its functions have places in that template, and the only objects are those that some
values reach and those that will be made. -/
def Link.ofTemplate (source : String) (mappers : Closure → Prop) (heap : Heap) (roots : Value → Prop) : Link :=
  .among (Closure.Placed (TokenPosition source)) mappers (heap.reached roots)

section

variable {source : String} {types : Registry} {own : ObjectRef → Prop} {heap : Heap} {mappers : Closure → Prop}
  {roots : Value → Prop}

theorem Link.ofTemplate_fits (hmappers : ∀ f, f.PlacedMapper (TokenPosition source) → mappers f) :
    (Link.ofTemplate source mappers heap roots).Fits (TokenPosition source) :=
  ⟨fun _ => Iff.rfl, hmappers⟩

/-- An interpreter that has run nothing yet holds no functions, if the values that it is given contain none. -/
theorem Interpreter.rests_ofTemplate (htypes : types.Confined own) (output : Output) (count : Nat)
    (hown : ∀ o, own o → roots (.object o)) (hfunctions : ∀ v, roots v → ∀ f, ¬heap.Contains v (.function f))
    (hmappers : ∀ v, roots v → ∀ f, heap.Contains v (.mapper f) → mappers f) :
    ((Interpreter.fresh types Interpreter.defaultCallLimit heap output).numberedFrom count).Rests
      (.ofTemplate source mappers heap roots) := by
  have hlinks : types.Links (.ofTemplate source mappers heap roots) :=
    htypes _ _ _ fun o ho => .inr ⟨.object o, o.type, hown o ho, .self⟩
  have hheap : heap.Linked (.ofTemplate source mappers heap roots) heap :=
    Heap.linked_reached (fun v hv f hf => absurd hf (hfunctions v hv f)) hmappers
  exact rests_fresh output count hlinks (by decide) hheap rfl rfl

/-- The mapper of a template that has been run is one that the interpreter holds. -/
theorem Catalog.mapperOf_eq_ok {ρ : Link} {i : Interpreter} (h : i.Rests ρ) {entity name mapper : String} {v : Value}
    (hv : mapperOf i entity name mapper = .ok v) : ∃ f, v = .mapper f ∧ ρ.mapper f := by
  have hself : i.Linked ρ i := ⟨rfl, rfl, h.machine⟩
  have hlinked := Query.mapperOf_linked hself entity name mapper
  rw [hv] at hlinked
  unfold mapperOf at hv
  split at hv
  · cases hv
    cases hlinked with
    | ok hlinked =>
      cases hlinked with
      | plain h => cases h
      | mapper hf _ => exact ⟨_, rfl, hf⟩
  · cases hv
  · cases hv

theorem Catalog.diagnostic?_mapperOf {i : Interpreter} {entity name mapper : String} {e : QueryError}
    (h : mapperOf i entity name mapper = .error e) : e.diagnostic? = none := by
  unfold mapperOf at h
  split at h <;> cases h <;> rfl

namespace Query

variable {q : Query} {e : QueryError}

theorem prepareAfresh_points (htypes : types.Confined own) (output : Output) (count : Nat)
    {parameters : List (String × Value)}
    (hown : ∀ o, own o → ∀ f, ¬heap.Contains (.object o) (.function f))
    (hparameters : ∀ x ∈ parameters, ∀ f, ¬heap.Contains x.2 (.function f))
    (h : (q.prepareAfresh types heap output count parameters).1 = .error e) : e.PointsInto q.source := by
  unfold prepareAfresh at h
  cases hp : compile q.source with
  | error f =>
    rw [hp] at h
    cases h
    exact QueryError.pointsInto_compilation hp
  | ok p =>
    let roots : Value → Prop := fun v => (∃ o, own o ∧ v = .object o) ∨ ∃ x ∈ parameters, x.2 = v
    let ρ : Link := .ofTemplate q.source (fun _ => True) heap roots
    have hρ : ρ.Fits (TokenPosition q.source) := Link.ofTemplate_fits fun _ _ => trivial
    have hfunctions : ∀ v, roots v → ∀ f, ¬heap.Contains v (.function f) := by
      rintro v (⟨o, ho, rfl⟩ | ⟨x, hx, rfl⟩)
      · exact hown o ho
      · exact hparameters x hx
    have hentries : List.Forall₂ (Value.LinkedEntry ρ) parameters parameters := by
      refine List.forall₂_same.2 fun x hx => ⟨rfl, ?_⟩
      have hroot : roots x.2 := .inr ⟨x, hx, rfl⟩
      exact Heap.Contains.self.linked hroot (fun f hf => absurd hf (hfunctions _ hroot f)) fun _ _ => trivial
    have hfresh : ((Interpreter.fresh types Interpreter.defaultCallLimit heap output).numberedFrom count).Rests ρ :=
      Interpreter.rests_ofTemplate htypes output count (fun o ho => .inl ⟨o, ho, rfl⟩) hfunctions fun _ _ _ _ => trivial
    obtain ⟨hplaced, hshaped⟩ := compiled_placed hp
    have hresult := ((hfresh.defineAll hentries).execute hρ hplaced hshaped).2
    simp only [hp] at h
    generalize ((((Interpreter.fresh types Interpreter.defaultCallLimit heap output).numberedFrom count).defineAll
      parameters).execute p).1 = r at h hresult
    cases r with
    | ok v => cases h
    | error e' =>
      cases h
      exact QueryError.pointsInto_evaluation hresult

theorem mapRowsAfresh_points (htypes : types.Confined own) (output : Output) (count : Nat) {rows : List Row}
    (hown : ∀ o, own o → ∀ f, ¬heap.Contains (.object o) (.function f) ∧ ¬heap.Contains (.object o) (.mapper f))
    (h : (q.mapRowsAfresh types heap output count rows).1 = .error e) : e.PointsInto q.source := by
  unfold mapRowsAfresh at h
  cases hm : q.mapper with
  | none =>
    simp only [hm] at h
    cases h
    exact nofun
  | some mapper =>
    cases hp : compile q.source with
    | error f =>
      simp only [hm, hp] at h
      cases h
      exact QueryError.pointsInto_compilation hp
    | ok p =>
      let roots : Value → Prop := fun v => ∃ o, own o ∧ v = .object o
      let ρ : Link := .ofTemplate q.source (Closure.PlacedMapper (TokenPosition q.source)) heap roots
      have hρ : ρ.Fits (TokenPosition q.source) := Link.ofTemplate_fits fun _ hf => hf
      have hfresh :
          ((Interpreter.fresh types Interpreter.defaultCallLimit heap output).numberedFrom count).Rests ρ := by
        refine Interpreter.rests_ofTemplate htypes output count (fun o ho => ⟨o, ho, rfl⟩) ?_ ?_
        · rintro v ⟨o, ho, rfl⟩ f
          exact (hown o ho f).1
        · rintro v ⟨o, ho, rfl⟩ f hf
          exact absurd hf (hown o ho f).2
      obtain ⟨hplaced, hshaped⟩ := compiled_placed hp
      obtain ⟨hrests, hresult⟩ := hfresh.execute hρ hplaced hshaped
      simp only [hm, hp] at h
      generalize ((Interpreter.fresh types Interpreter.defaultCallLimit heap output).numberedFrom count).execute p = a
        at h hrests hresult
      obtain ⟨r, i⟩ := a
      cases r with
      | error e' =>
        cases h
        exact QueryError.pointsInto_evaluation hresult
      | ok v =>
        simp only at h
        cases hmapper : Catalog.mapperOf i q.entity q.name mapper with
        | error e' =>
          rw [hmapper] at h
          cases h
          intro d hd
          rw [Catalog.diagnostic?_mapperOf hmapper] at hd
          cases hd
        | ok m =>
          obtain ⟨f, rfl, hf⟩ := Catalog.mapperOf_eq_ok hrests hmapper
          rw [hmapper] at h
          simp only at h
          cases hrows : (i.mapRows (.mapper f) rows).1 with
          | ok vs =>
            rw [hrows] at h
            cases h
          | error e' =>
            rw [hrows] at h
            cases h
            exact QueryError.pointsInto_evaluation (hrests.mapRows hρ hf rows e' hrows)

end Query

end

namespace Catalog

/-- Whatever has been done with a catalogue, every fault of a template that is found when it is compiled, run with
parameters, or applied to rows is reported at a byte of that template. It is assumed that the parameters contain no
functions, and that the objects which host types keep for themselves, if there are any, contain no functions and, where
rows are mapped, no mappers. -/
theorem errors_point_into_template {types : Registry} {own : ObjectRef → Prop} (htypes : types.Confined own)
    (heap : Heap) (output : Output) (history : List CatalogEvent) :
    let c := (Catalog.new types heap output).replay history
    (∀ source e, compile source = .error e → (QueryError.compilation e).PointsInto source) ∧
    ∀ q since, Latest q history since → (∀ o, own o → ∀ f, ¬c.heap.Contains (.object o) (.function f)) →
      (∀ parameters, (∀ x ∈ parameters, ∀ f, ¬c.heap.Contains x.2 (.function f)) →
        ∀ e, (c.prepare q.entity q.name parameters).1 = .error e → e.PointsInto q.source) ∧
      ((∀ o, own o → ∀ f, ¬c.heap.Contains (.object o) (.mapper f)) →
        ∀ rows e, (c.mapRows q.entity q.name rows).1 = .error e → e.PointsInto q.source) := by
  intro c
  have hc : c.Coherent history := .replay types heap output history
  have hsame : c.types = types := replay_types _ history
  rw [← hsame] at htypes
  refine ⟨fun source e he => QueryError.pointsInto_compilation he, fun q since hq hfunctions => ⟨?_, ?_⟩⟩
  · intro parameters hparameters e he
    obtain ⟨entries, hprepare⟩ := hc.prepare_eq hq parameters
    rw [hprepare] at he
    exact Query.prepareAfresh_points htypes c.output c.declarations hfunctions hparameters he
  · intro hmappers rows e he
    obtain ⟨entries, hmapRows⟩ := hc.mapRows_eq hq rows
    rw [hmapRows] at he
    exact Query.mapRowsAfresh_points htypes c.output c.declarations
      (fun o ho f => ⟨hfunctions o ho f, hmappers o ho f⟩) he

/-- A field of null is read in a function that is called on the next line. The run is given an object without functions;
there is one with a function, which belongs to another template. -/
theorem null_receiver_points_into_template :
    let cell : HostType := ⟨"lib.Cell", ["value"], [.default], []⟩
    let types := Registry.ofList .empty [cell]
    let price : Query := ⟨"shop", "price", "fun f(a) = a.value.name;\nf(cell)", none⟩
    let foreign : Closure := ⟨0, ⟨⟨"g", ⟨9, 9⟩⟩, [], []⟩, ScopeStore.global⟩
    let kept : Heap := ⟨#[((HostObject.new cell).set? "value" (.function foreign)).getD (.new cell), .new cell]⟩
    let history : List CatalogEvent := [.surroundings kept .silent 1, .register price]
    let c := (Catalog.new types .empty .silent).replay history
    let e : QueryError := .evaluation ⟨.nullReceiver "name", ⟨1, 19⟩⟩
    (c.prepare "shop" "price" [("cell", .object ⟨cell, 1⟩)]).1 = .error e ∧ e.PointsInto price.source := by
  intro cell types price foreign kept history c e
  have htypes : types.Confined fun _ => False := fun _ _ _ _ => Bodies.links_empty
  have hlatest : Latest price history _ := .later (.registered _) rfl
  have hcell : ∀ w, kept.Contains (.object ⟨cell, 1⟩) w → w = .object ⟨cell, 1⟩ ∨ w = .null := by
    intro w h
    induction h with
    | self => exact .inl rfl
    | field _ hy hx ih =>
      rcases ih with he | he
      · cases he
        cases hy
        rw [List.mem_singleton.1 hx]
        exact .inr rfl
      · cases he
  have hparameters : ∀ x ∈ [("cell", Value.object ⟨cell, 1⟩)], ∀ f, ¬kept.Contains x.2 (.function f) := by
    intro x hx f hf
    rw [List.mem_singleton.1 hx] at hf
    rcases hcell _ hf with he | he <;> cases he
  have hp : compile price.source = .ok
      [.function ⟨"f", ⟨1, 4⟩⟩ [⟨"a", ⟨1, 6⟩⟩]
        [.ret (some (.getField (.getField (.name ⟨"a", ⟨1, 11⟩⟩) ⟨"value", ⟨1, 13⟩⟩) ⟨"name", ⟨1, 19⟩⟩)) ⟨1, 9⟩],
      .expr (.call (.name ⟨"f", ⟨2, 1⟩⟩) [.name ⟨"cell", ⟨2, 3⟩⟩] ⟨2, 2⟩)] := by cbv
  have halone : (price.prepareAfresh types kept .silent 1 [("cell", .object ⟨cell, 1⟩)]).1 = .error e := by
    rw [Query.prepareAfresh, hp]
    decide +kernel
  have hc : c.Coherent history := .replay types .empty .silent history
  obtain ⟨entries, hprepare⟩ := hc.prepare_eq hlatest [("cell", .object ⟨cell, 1⟩)]
  have hanswer : (c.prepare "shop" "price" [("cell", .object ⟨cell, 1⟩)]).1 = .error e := by
    rw [← halone]
    exact congrArg Prod.fst hprepare
  have hruns := (errors_point_into_template htypes .empty .silent history).2 price _ hlatest fun _ ho => ho.elim
  exact ⟨hanswer, hruns.1 _ hparameters e hanswer⟩

/-- A host type that keeps a function of another template hands it to this one, which calls it. The error that it comes
to is reported on line 4, where its name stands in the other template; this one has a single line. -/
theorem kept_function_points_elsewhere :
    let other : Program := [.function ⟨"g", ⟨4, 5⟩⟩ [] [.ret (some (.name ⟨"missing", ⟨4, 11⟩⟩)) ⟨4, 9⟩]]
    let g : Closure := ⟨0, ⟨⟨"g", ⟨4, 5⟩⟩, [], [.ret (some (.name ⟨"missing", ⟨4, 11⟩⟩)) ⟨4, 9⟩]⟩, ScopeStore.global⟩
    let store : HostType := ⟨"lib.Store", [], [], [⟨"take", [], true, 0⟩]⟩
    let types := Registry.ofList (.ofProgram (fun _ _ _ => throw "none") fun _ _ _ => pure (.function g)) [store]
    let price : Query := ⟨"shop", "price", "import lib.Store; Store.take()()", none⟩
    let c := (Catalog.new types .empty .silent).replay [.register price]
    compile "\n\n\nfun g() = missing" = .ok other ∧
      ((Interpreter.fresh .empty 1024 .empty .silent).execute other).2.lookup "g" = .ok (.function g) ∧
      ∃ e, (c.prepare "shop" "price" []).1 = .error e ∧ e.diagnostic?.isSome = true ∧ ¬e.PointsInto price.source := by
  intro other g store types price c
  have hother : compile "\n\n\nfun g() = missing" = .ok other := by cbv
  have hp : compile price.source = .ok [.importType "lib.Store" ⟨"Store", ⟨1, 11⟩⟩,
      .expr (.call (.callMethod (.name ⟨"Store", ⟨1, 18⟩⟩) ⟨"take", ⟨1, 24⟩⟩ []) [] ⟨1, 30⟩)] := by cbv
  have halone : (price.prepareAfresh types .empty .silent 0 []).1 =
      .error (.evaluation ⟨.undefinedVariable "missing", ⟨4, 11⟩⟩) := by
    rw [Query.prepareAfresh, hp]
    decide +kernel
  have hc : c.Coherent [.register price] := .replay types .empty .silent _
  obtain ⟨entries, hprepare⟩ := hc.prepare_eq (.registered []) []
  refine ⟨hother, rfl, _, (congrArg Prod.fst hprepare).trans halone, rfl, fun h => ?_⟩
  obtain ⟨offset, -, hquotes⟩ := h _ rfl
  have hline : ((LineIndex.ofString price.source).position offset).line ≤ price.source.toList.count '\n' + 1 := by
    rw [LineIndex.ofString_eq]
    exact LineIndex.line_position_le _ _
  rw [← hquotes.position] at hline
  exact absurd hline (by decide)

end Catalog

end QueryTemplate
