import QueryTemplate.Host.Registry
import QueryTemplate.Proofs.Host.Heap
import QueryTemplate.Proofs.Value.Operators

/-!
# Values up to closures

Two templates that differ in places and braces make different closures of the same declarations. What values show of a
closure is its face: when it was made, its name and how many parameters it has. Values that are the same up to closures
of equal faces (`Value.Alike`) have the same name of type, the same text and the same results of operators
(`BinaryOp.apply_congr`, `UnaryOp.apply_congr`).

What bodies of host types do with closures is not known. One that looked at the tree of a function would see places, so
they are asked to pass closures on as they are and to look at their faces only (`Registry.Uniform`).
-/

namespace QueryTemplate

/-- What values show of a closure. -/
def Closure.face (f : Closure) : Nat × String × Nat := (f.serial, f.name, f.arity)

/-- Two values that are the same, up to functions that are related. No template can run a mapper, so of mappers only
the faces count. -/
inductive Value.Related (R : Closure → Closure → Prop) : Value → Value → Prop
  | data {v : Value} (h : ∀ f, v ≠ .function f) : Related R v v
  | function {f g : Closure} (h : R f g) : Related R (.function f) (.function g)
  | mapper {f g : Closure} (h : f.face = g.face) : Related R (.mapper f) (.mapper g)

/-- Two values that are the same up to closures of equal faces. -/
def Value.Alike : Value → Value → Prop := Value.Related fun f g => f.face = g.face

/-- The same name with related values. -/
abbrev Value.RelatedEntry (R : Closure → Closure → Prop) : String × Value → String × Value → Prop :=
  Bindings.MatchedEntry (Value.Related R)

/-- The same names bound to related values in the same order. -/
abbrev Bindings.Related (R : Closure → Closure → Prop) (b c : Bindings Value) : Prop := b.Matched (Value.Related R) c

/-- In each place objects of the same type with related fields, or none. -/
def Heap.Related (R : Closure → Closure → Prop) (h k : Heap) : Prop :=
  ∀ i : Nat, Option.Rel (HostObject.Matched (Value.Related R)) h.objects[i]? k.objects[i]?

variable {R R' : Closure → Closure → Prop} {v v' w w' : Value}

namespace Value

theorem Related.mono (hR : ∀ f g, R f g → R' f g) (h : Related R v w) : Related R' v w := by
  cases h with
  | data h => exact .data h
  | function h => exact .function (hR _ _ h)
  | mapper h => exact .mapper h

theorem Related.alike (hR : ∀ f g, R f g → f.face = g.face) (h : Related R v w) : v.Alike w := h.mono hR

/-! ## What values alike have in common -/

theorem Alike.typeName (h : v.Alike w) : v.typeName = w.typeName := by
  cases h <;> rfl

theorem Alike.display (h : v.Alike w) : v.display = w.display := by
  cases h with
  | data => rfl
  | function h | mapper h =>
    have hname : _ = _ := congrArg (·.2.1) h
    simp only [Closure.face] at hname
    simp only [Value.display, hname]

theorem Alike.similar (h : v.Alike w) : v.Similar w where
  typeName := h.typeName
  display := h.display
  number? := by cases h <;> rfl
  string? := by cases h <;> rfl
  bool? := by cases h <;> rfl

theorem Alike.same (hv : v.Alike v') (hw : w.Alike w') : v.same w = v'.same w' := by
  have hserial : ∀ {f g : Closure}, f.face = g.face → f.serial = g.serial := fun h => congrArg Prod.fst h
  cases hv with
  | data =>
    cases hw with
    | data => rfl
    | function h | mapper h => cases v <;> simp [Value.same, hserial h]
  | function h | mapper h =>
    cases hw with
    | data => cases w <;> simp [Value.same, hserial h]
    | function h' | mapper h' => simp [Value.same, hserial h, hserial h']

end Value

/-! ## Operators -/

theorem UnaryOp.apply_congr (hv : v.Alike v') (op : UnaryOp) : op.apply v = op.apply v' :=
  UnaryOp.apply_similar hv.similar op

/-- Operators do not tell values apart that are alike. -/
theorem BinaryOp.apply_congr (hv : v.Alike v') (hw : w.Alike w') (op : BinaryOp) : op.apply v w = op.apply v' w' :=
  BinaryOp.apply_similar hv.similar hw.similar (hv.same hw) op

theorem Value.ne_function_of_isPlain (h : v.isPlain = true) (f : Closure) : v ≠ .function f := fun he => by
  rw [he] at h
  cases h

theorem UnaryOp.apply_ne_function {op : UnaryOp} (h : op.apply v = .ok w) (f : Closure) : w ≠ .function f :=
  Value.ne_function_of_isPlain (UnaryOp.apply_isPlain h) f

theorem BinaryOp.apply_ne_function {op : BinaryOp} (h : op.apply v w = .ok v') (f : Closure) : v' ≠ .function f :=
  Value.ne_function_of_isPlain (BinaryOp.apply_isPlain h) f

/-! ## Objects -/

theorem Bindings.Related.mono (hR : ∀ f g, R f g → R' f g) {b c : Bindings Value} (h : b.Related R c) :
    b.Related R' c := Matched.mono (fun _ _ => Value.Related.mono hR) h

namespace Heap.Related

variable {h k : Heap} {o : ObjectRef}

theorem mono (hR : ∀ f g, R f g → R' f g) (hk : h.Related R k) : h.Related R' k := by
  intro i
  have hi := hk i
  generalize h.objects[i]? = x at hi
  generalize k.objects[i]? = y at hi
  cases hi with
  | none => exact .none
  | some hxy => exact .some (hxy.mono fun _ _ => Value.Related.mono hR)

/-- Related heaps have equally many objects. -/
theorem size_eq (hk : h.Related R k) : h.objects.size = k.objects.size := by
  have hle : ∀ i, h.objects.size ≤ i ↔ k.objects.size ≤ i := by
    intro i
    have hi := hk i
    rw [← Array.getElem?_eq_none_iff, ← Array.getElem?_eq_none_iff]
    generalize h.objects[i]? = x at hi
    generalize k.objects[i]? = y at hi
    cases hi with
    | none => exact Iff.rfl
    | some => exact iff_of_false nofun nofun
  exact Nat.le_antisymm ((hle _).2 (Nat.le_refl _)) ((hle _).1 (Nat.le_refl _))

theorem object (hk : h.Related R k) (o : ObjectRef) : (h.object o).Matched (Value.Related R) (k.object o) :=
  Heap.matched_object (.data nofun) (hk o.index)

theorem get? (hk : h.Related R k) (o : ObjectRef) (field : String) :
    Option.Rel (Value.Related R) (h.get? o field) (k.get? o field) := (hk.object o).fields.find? field

theorem set? (hk : h.Related R k) (o : ObjectRef) (field : String) (hv : v.Related R w) :
    Option.Rel (Heap.Related R) (h.set? o field v) (k.set? o field w) := by
  have hobject := (hk.object o).set? field hv
  unfold Heap.set?
  generalize (h.object o).set? field v = x at hobject
  generalize (k.object o).set? field w = y at hobject
  cases hobject with
  | none => exact .none
  | some hxy =>
    refine .some fun i => ?_
    simp only [Array.getElem?_setIfInBounds, hk.size_eq]
    split
    · split
      · exact .some hxy
      · exact .none
    · exact hk i

/-- A new object is the same in related heaps. -/
theorem allocate (hk : h.Related R k) (t : HostType) :
    (h.allocate t).1 = (k.allocate t).1 ∧ (h.allocate t).2.Related R (k.allocate t).2 := by
  refine ⟨by rw [Heap.allocate, Heap.allocate, hk.size_eq], fun i => ?_⟩
  simp only [Heap.allocate, Array.getElem?_push, hk.size_eq]
  split
  · exact .some (.new (.data nofun) t)
  · exact hk i

end Heap.Related

/-! ## Bodies of host types -/

/-- Results of the surrounding program on related objects: related values or the same message, with related objects. -/
inductive HostM.Agree (R : Closure → Closure → Prop) :
    EStateM.Result String Heap Value → EStateM.Result String Heap Value → Prop
  | ok {v w : Value} {h k : Heap} (hv : v.Related R w) (hk : h.Related R k) : Agree R (.ok v h) (.ok w k)
  | error {message : String} {h k : Heap} (hk : h.Related R k) : Agree R (.error message h) (.error message k)

/-- What is done with values does not depend on more of their closures than the faces. -/
def HostM.Uniform (body : List Value → HostM Value) : Prop :=
  ∀ R : Closure → Closure → Prop, (∀ f g, R f g → f.face = g.face) →
    ∀ (vs ws : List Value) (h k : Heap), List.Forall₂ (Value.Related R) vs ws → h.Related R k →
      HostM.Agree R (body vs h) (body ws k)

/-- No body of a constructor or method looks into closures: they are passed on as they are. -/
structure Bodies.Uniform (bodies : Bodies) : Prop where
  constructors : ∀ n t, HostM.Uniform (bodies.construct n t)
  methods : ∀ n receiver, HostM.Uniform (bodies.call n receiver)

/-- So it is with those of the types of a registry. -/
def Registry.Uniform (types : Registry) : Prop := types.bodies.Uniform

/-- The default constructor does not, so no body of a program does if its own ones do not. -/
theorem Bodies.Uniform.ofProgram {construct : Nat → HostType → List Value → HostM Value}
    {call : Nat → Option ObjectRef → List Value → HostM Value} (hconstruct : ∀ n t, HostM.Uniform (construct n t))
    (hcall : ∀ n receiver, HostM.Uniform (call n receiver)) : (Bodies.ofProgram construct call).Uniform := by
  refine ⟨fun n t => ?_, hcall⟩
  cases n with
  | zero =>
    intro R _ vs ws h k _ hk
    obtain ⟨ho, hh⟩ := hk.allocate t
    have hobject : Value.Related R (.object (h.allocate t).1) (.object (k.allocate t).1) := by
      rw [ho]
      exact .data nofun
    exact .ok hobject hh
  | succ n => exact hconstruct n t

theorem Bodies.uniform_empty : Bodies.empty.Uniform :=
  .ofProgram (fun _ _ _ _ _ _ _ _ _ hk => .error hk) fun _ _ _ _ _ _ _ _ _ hk => .error hk

/-- Parameters do not tell values apart that are alike. -/
theorem ParameterType.takes_congr (p : ParameterType) (h : v.Alike w) : p.takes v = p.takes w := by
  cases h with
  | data => rfl
  | function | mapper => cases p <;> rfl

theorem ParameterType.takeAll_congr {vs ws : List Value} (h : List.Forall₂ Value.Alike vs ws)
    (ps : List ParameterType) : takeAll ps vs = takeAll ps ws := by
  induction h generalizing ps with
  | nil => rfl
  | cons he hs ih =>
    cases ps with
    | nil => rfl
    | cons p ps => simp only [takeAll, p.takes_congr he, ih ps]

theorem HostType.constructor?_congr (t : HostType) {vs ws : List Value} (h : List.Forall₂ Value.Alike vs ws) :
    t.constructor? vs = t.constructor? ws := by
  simp only [constructor?, Constructor.takes, ParameterType.takeAll_congr h]

theorem HostType.method?_congr (t : HostType) (name : String) (staticOnly : Bool) {vs ws : List Value}
    (h : List.Forall₂ Value.Alike vs ws) : t.method? name vs staticOnly = t.method? name ws staticOnly := by
  simp only [method?, Method.answers, ParameterType.takeAll_congr h]

end QueryTemplate
