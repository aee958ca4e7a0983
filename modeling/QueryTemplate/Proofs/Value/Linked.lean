import QueryTemplate.Host.Registry
import QueryTemplate.Proofs.Host.Heap
import QueryTemplate.Proofs.Value.Operators

/-!
# Values up to the places of objects

Two runs of the same template on different heaps come to the same values, but their objects lie in different places, and
their closures have later numbers where more declarations have been executed before. A link says which place of one heap
stands for which of the other, by how much the numbers differ, and which closures may occur at all (`Link`). Operators
come to the same results on linked values (`BinaryOp.apply_linked`), and fields of linked objects hold linked values
(`Heap.Linked.get?`, `Heap.Linked.set?`).

What bodies of host types do is not known. They may be asked to work alike on linked arguments and linked heaps
(`Registry.Links`): then they look at no places, no numbers and at no objects that they are not given, and make up no
closures.
-/

namespace QueryTemplate

/-- What stands for what in two runs side by side. -/
structure Link where
  /-- The closures that occur as functions. -/
  function : Closure → Prop
  /-- The closures that occur as mappers. -/
  mapper : Closure → Prop
  /-- Which place on the second heap stands for a place on the first one. -/
  place : Nat → Nat → Prop
  left_unique : ∀ {i i' j}, place i j → place i' j → i = i'
  right_unique : ∀ {i j j'}, place i j → place i j' → j = j'
  /-- How many more declarations have been executed before the second run. -/
  later : Nat
  /-- What has been printed before the second run. -/
  before : String

/-- The closure of the same declaration in the same scope, when so many more declarations have been executed. -/
def Closure.later (f : Closure) (count : Nat) : Closure := { f with serial := f.serial + count }

/-- Values that are the same up to the places of objects and the numbers of closures. -/
inductive Value.Linked (ρ : Link) : Value → Value → Prop
  | plain {v : Value} (h : v.isPlain = true) : Linked ρ v v
  | function {f g : Closure} (h : ρ.function f) (hg : g = f.later ρ.later) : Linked ρ (.function f) (.function g)
  | mapper {f g : Closure} (h : ρ.mapper f) (hg : g = f.later ρ.later) : Linked ρ (.mapper f) (.mapper g)
  | object {t : HostType} {i j : Nat} (h : ρ.place i j) : Linked ρ (.object ⟨t, i⟩) (.object ⟨t, j⟩)

/-- The same name with linked values. -/
abbrev Value.LinkedEntry (ρ : Link) : String × Value → String × Value → Prop := Bindings.MatchedEntry (Value.Linked ρ)

/-- Objects in places that stand for each other have the same type and linked values in their fields, and new objects
will be in places that stand for each other. -/
structure Heap.Linked (ρ : Link) (h k : Heap) : Prop where
  objects : ∀ {i j}, ρ.place i j → Option.Rel (HostObject.Matched (Value.Linked ρ)) h.objects[i]? k.objects[j]?
  next : ∀ n, ρ.place (h.objects.size + n) (k.objects.size + n)

variable {ρ : Link} {v v' w w' : Value}

/-! ## Operators -/

/-- A value that is plain is not the same as one that is not. -/
theorem Value.same_eq_false (h : v.isPlain ≠ w.isPlain) : v.same w = false := by
  cases v <;> cases w <;> first | rfl | exact absurd rfl h

namespace Value.Linked

theorem mono {ρ' : Link} (hf : ∀ f, ρ.function f → ρ'.function f) (hm : ∀ f, ρ.mapper f → ρ'.mapper f)
    (hp : ∀ i j, ρ.place i j → ρ'.place i j) (hlater : ρ.later = ρ'.later) (h : v.Linked ρ w) : v.Linked ρ' w := by
  cases h with
  | plain h => exact .plain h
  | function h hg => exact .function (hf _ h) (hlater ▸ hg)
  | mapper h hg => exact .mapper (hm _ h) (hlater ▸ hg)
  | object h => exact .object (hp _ _ h)

theorem similar (h : v.Linked ρ w) : v.Similar w := by
  cases h with
  | function _ hg | mapper _ hg =>
    subst hg
    exact ⟨rfl, rfl, rfl, rfl, rfl⟩
  | plain | object => exact ⟨rfl, rfl, rfl, rfl, rfl⟩

theorem isPlain (h : v.Linked ρ w) : v.isPlain = w.isPlain := by
  cases h <;> rfl

theorem same (hv : v.Linked ρ v') (hw : w.Linked ρ w') : v.same w = v'.same w' := by
  have hunlike : ∀ h : v.isPlain ≠ w.isPlain, v.same w = v'.same w' := fun h => by
    rw [same_eq_false h, same_eq_false (hv.isPlain ▸ hw.isPlain ▸ h)]
  cases hv with
  | plain hp =>
    cases hw with
    | plain => rfl
    | function | mapper | object => exact hunlike (by rw [hp]; nofun)
  | function _ hf =>
    cases hw with
    | plain hp => exact hunlike (by rw [hp]; nofun)
    | function _ hg => simp [Value.same, hf, hg, Closure.later]
    | mapper | object => rfl
  | mapper _ hf =>
    cases hw with
    | plain hp => exact hunlike (by rw [hp]; nofun)
    | mapper _ hg => simp [Value.same, hf, hg, Closure.later]
    | function | object => rfl
  | object hij =>
    cases hw with
    | plain hp => exact hunlike (by rw [hp]; nofun)
    | function | mapper => rfl
    | object hij' =>
      rw [Value.same, Value.same, Bool.eq_iff_iff, beq_iff_eq, beq_iff_eq]
      constructor
      · rintro rfl
        exact ρ.right_unique hij hij'
      · rintro rfl
        exact ρ.left_unique hij hij'

end Value.Linked

theorem UnaryOp.apply_linked (h : v.Linked ρ w) (op : UnaryOp) : op.apply v = op.apply w := op.apply_similar h.similar

theorem BinaryOp.apply_linked (hv : v.Linked ρ v') (hw : w.Linked ρ w') (op : BinaryOp) :
    op.apply v w = op.apply v' w' := op.apply_similar hv.similar hw.similar (hv.same hw)

/-! ## Objects -/

namespace Heap.Linked

variable {h k : Heap} {t : HostType} {i j : Nat}

theorem object (hk : h.Linked ρ k) (hij : ρ.place i j) :
    (h.object ⟨t, i⟩).Matched (Value.Linked ρ) (k.object ⟨t, j⟩) :=
  Heap.matched_object (.plain rfl) (hk.objects hij)

theorem get? (hk : h.Linked ρ k) (hij : ρ.place i j) (field : String) :
    Option.Rel (Value.Linked ρ) (h.get? ⟨t, i⟩ field) (k.get? ⟨t, j⟩ field) := (hk.object hij).fields.find? field

/-- Either both heaps have an object there or neither has. -/
theorem lt_size (hk : h.Linked ρ k) (hij : ρ.place i j) : i < h.objects.size ↔ j < k.objects.size := by
  have ho := hk.objects hij
  rw [← not_iff_not, Nat.not_lt, Nat.not_lt, ← Array.getElem?_eq_none_iff, ← Array.getElem?_eq_none_iff]
  revert ho
  generalize h.objects[i]? = x
  generalize k.objects[j]? = y
  intro ho
  cases ho <;> simp

/-- Objects that match are put in places that stand for each other. -/
theorem setIfInBounds (hk : h.Linked ρ k) (hij : ρ.place i j) {x y : HostObject}
    (hxy : x.Matched (Value.Linked ρ) y) :
    Heap.Linked ρ ⟨h.objects.setIfInBounds i x⟩ ⟨k.objects.setIfInBounds j y⟩ := by
  refine ⟨fun {i' j'} h' => ?_, fun n => ?_⟩
  · rw [Array.getElem?_setIfInBounds, Array.getElem?_setIfInBounds]
    by_cases hi : i = i'
    · obtain rfl := hi
      obtain rfl := ρ.right_unique hij h'
      simp only [↓reduceIte, hk.lt_size hij]
      split
      · exact .some hxy
      · exact .none
    · have hj : j ≠ j' := fun hj => hi (ρ.left_unique hij (hj ▸ h'))
      rw [if_neg hi, if_neg hj]
      exact hk.objects h'
  · rw [Array.size_setIfInBounds, Array.size_setIfInBounds]
    exact hk.next n

theorem set? (hk : h.Linked ρ k) (hij : ρ.place i j) (field : String) (hv : v.Linked ρ w) :
    Option.Rel (Heap.Linked ρ) (h.set? ⟨t, i⟩ field v) (k.set? ⟨t, j⟩ field w) := by
  have hobject := (hk.object (t := t) hij).set? field hv
  unfold Heap.set?
  generalize (h.object ⟨t, i⟩).set? field v = x at hobject
  generalize (k.object ⟨t, j⟩).set? field w = y at hobject
  cases hobject with
  | none => exact .none
  | some hxy => exact .some (hk.setIfInBounds hij hxy)

/-- New objects of a type lie in places that stand for each other. -/
theorem allocate (hk : h.Linked ρ k) (t : HostType) :
    (Value.object (h.allocate t).1).Linked ρ (.object (k.allocate t).1) ∧
      (h.allocate t).2.Linked ρ (k.allocate t).2 := by
  have hnext : ρ.place h.objects.size k.objects.size := hk.next 0
  refine ⟨.object hnext, fun {i j} hij => ?_, fun n => ?_⟩
  · simp only [Heap.allocate, Array.getElem?_push]
    by_cases hi : i = h.objects.size
    · obtain rfl := hi
      obtain rfl := ρ.right_unique hnext hij
      rw [if_pos rfl, if_pos rfl]
      exact .some (.new (.plain rfl) t)
    · have hj : j ≠ k.objects.size := fun hj => hi (ρ.left_unique (hj ▸ hij) hnext)
      rw [if_neg hi, if_neg hj]
      exact hk.objects hij
  · simp only [Heap.allocate, Array.size_push, Nat.add_assoc]
    exact hk.next (1 + n)

end Heap.Linked

/-! ## Bodies of host types -/

/-- Results of the surrounding program: linked values or the same message, with linked heaps. -/
inductive HostM.Linked (ρ : Link) : EStateM.Result String Heap Value → EStateM.Result String Heap Value → Prop
  | ok {v w : Value} {h k : Heap} (hv : v.Linked ρ w) (hk : h.Linked ρ k) : Linked ρ (.ok v h) (.ok w k)
  | error {message : String} {h k : Heap} (hk : h.Linked ρ k) : Linked ρ (.error message h) (.error message k)

/-- What is done with linked values on linked heaps comes to linked results. -/
def HostM.Links (ρ : Link) (x y : List Value → HostM Value) : Prop :=
  ∀ (vs ws : List Value) (h k : Heap), List.Forall₂ (Value.Linked ρ) vs ws → h.Linked ρ k →
    HostM.Linked ρ (x vs h) (y ws k)

/-- All bodies of constructors and methods work alike on linked values. -/
structure Bodies.Links (ρ : Link) (bodies : Bodies) : Prop where
  constructors : ∀ n t, HostM.Links ρ (bodies.construct n t) (bodies.construct n t)
  statics : ∀ n, HostM.Links ρ (bodies.call n none) (bodies.call n none)
  methods : ∀ n (t : HostType) {i j : Nat}, ρ.place i j →
    HostM.Links ρ (bodies.call n (some ⟨t, i⟩)) (bodies.call n (some ⟨t, j⟩))

/-- So do those of the types of a registry. -/
def Registry.Links (ρ : Link) (types : Registry) : Prop := types.bodies.Links ρ

/-- The default constructor works alike on linked values, so the bodies of a program do if its own ones do. -/
theorem Bodies.Links.ofProgram {construct : Nat → HostType → List Value → HostM Value}
    {call : Nat → Option ObjectRef → List Value → HostM Value}
    (hconstruct : ∀ n t, HostM.Links ρ (construct n t) (construct n t))
    (hstatic : ∀ n, HostM.Links ρ (call n none) (call n none))
    (hcall : ∀ n (t : HostType) {i j : Nat}, ρ.place i j →
      HostM.Links ρ (call n (some ⟨t, i⟩)) (call n (some ⟨t, j⟩))) :
    (Bodies.ofProgram construct call).Links ρ := by
  refine ⟨fun n t => ?_, hstatic, fun n t => hcall n t⟩
  cases n with
  | zero =>
    intro vs ws h k _ hk
    obtain ⟨ho, hh⟩ := hk.allocate t
    exact .ok ho hh
  | succ n => exact hconstruct n t

/-- A program without bodies of its own has only the default constructor. -/
theorem Bodies.links_empty : Bodies.empty.Links ρ :=
  .ofProgram (fun _ _ _ _ _ _ _ hk => .error hk) (fun _ _ _ _ _ _ hk => .error hk)
    fun _ _ _ _ _ _ _ _ _ _ hk => .error hk

/-- Parameters do not tell linked values apart. -/
theorem ParameterType.takes_linked (p : ParameterType) (h : v.Linked ρ w) : p.takes v = p.takes w := by
  cases h with
  | plain => rfl
  | function | mapper | object => cases p <;> rfl

theorem ParameterType.takeAll_linked {vs ws : List Value} (h : List.Forall₂ (Value.Linked ρ) vs ws)
    (ps : List ParameterType) : takeAll ps vs = takeAll ps ws := by
  induction h generalizing ps with
  | nil => rfl
  | cons he hs ih =>
    cases ps with
    | nil => rfl
    | cons p ps => simp only [takeAll, p.takes_linked he, ih ps]

theorem HostType.constructor?_linked (t : HostType) {vs ws : List Value} (h : List.Forall₂ (Value.Linked ρ) vs ws) :
    t.constructor? vs = t.constructor? ws := by
  simp only [constructor?, Constructor.takes, ParameterType.takeAll_linked h]

theorem HostType.method?_linked (t : HostType) (name : String) (staticOnly : Bool) {vs ws : List Value}
    (h : List.Forall₂ (Value.Linked ρ) vs ws) : t.method? name vs staticOnly = t.method? name ws staticOnly := by
  simp only [method?, Method.answers, ParameterType.takeAll_linked h]

end QueryTemplate
