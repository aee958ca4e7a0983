import QueryTemplate.Proofs.Value.Combined
import QueryTemplate.Proofs.Value.Operators
import QueryTemplate.Proofs.Value.Order

/-!
# Comparisons

The operators that order and the two that ask for equality are evaluated on different paths. They agree all the same:
where two values can be ordered, all six operators answer by one and the same order (`Value.ComparesAs`), the same for
both orders of the operands; elsewhere the ones that order fail, whichever operand comes first. Among values that are no
floating-point numbers `<` is transitive, and on numbers it is the order of the rational numbers that they stand for
(`Value.comparedCoherently`).
-/

namespace QueryTemplate

open NumericKind

variable {a b : Number} {u v w : Value} {o : Ordering}

namespace Value

/-- Whether all comparison operators answer by the order `o`. -/
def ComparesAs (v w : Value) (o : Ordering) : Prop :=
  ∀ op : BinaryOp, op.isArithmetic = false → op.apply v w = .ok (.bool (op.holds o))

/-- Whether the operators that order fail. -/
def Unordered (v w : Value) : Prop := ∀ op : BinaryOp, op.isOrdering = true → ∃ f, op.apply v w = .error f

/-- A value that is no floating-point number. -/
def NotFloating (v : Value) : Prop := ∀ kind, v.kind? = some kind → kind.IsExact

theorem notFloating_number (h : a.kind.IsExact) : (number a).NotFloating := by
  rintro _ ⟨⟩
  exact h

theorem comparesAs_of_ordering (hordering : ∀ op : BinaryOp, op.isOrdering = true →
    op.apply v w = .ok (.bool (op.holds o))) (hequal : v.equal w = (o == .eq)) : v.ComparesAs w o := by
  intro op hop
  cases op with
  | add | sub | mul | div => cases hop
  | lt | le | gt | ge => exact hordering _ rfl
  | eq =>
    rw [← show v.equal w = BinaryOp.eq.holds o from hequal]
    rfl
  | ne =>
    rw [← show (!v.equal w) = BinaryOp.ne.holds o from congrArg Bool.not hequal]
    rfl

theorem ComparesAs.equal (h : v.ComparesAs w o) : v.equal w = (o == .eq) :=
  Value.bool.inj (Except.ok.inj (h .eq rfl))

theorem ComparesAs.lt_iff (h : v.ComparesAs w o) : BinaryOp.lt.apply v w = .ok (.bool true) ↔ o = .lt := by
  rw [h .lt rfl, Except.ok.injEq, Value.bool.injEq]
  exact beq_iff_eq

theorem Unordered.lt_ne (h : v.Unordered w) {r : Value} : BinaryOp.lt.apply v w ≠ .ok r := by
  obtain ⟨f, hf⟩ := h .lt rfl
  rw [hf]
  nofun

theorem ComparesAs.ordered (h : v.ComparesAs w o) : ¬v.Unordered w := fun hnone => hnone.lt_ne (h .lt rfl)

end Value

/-! ## Numbers -/

theorem NumericKind.promote_comm (a b : NumericKind) : promote a b = promote b a := by cases a <;> cases b <;> rfl

namespace Number

section Operands

variable {α : Type} {A : Arithmetic α} (hA : A.Implements (promote a.kind b.kind))

include hA

/-- Numbers are equal if both can be taken to their common kind and are equal there. -/
theorem equal_eq : (Value.number a).equal (.number b) =
    match A.convert? a, A.convert? b with
    | some x, some y => A.compare x y == .eq
    | _, _ => false := by
  simp only [Value.equal, Value.kind?, Value.number?, Option.map_some, hA.apply_eq]
  cases hx : A.convert? a with
  | none => rw [Arithmetic.apply, Arithmetic.convert_of_none hx]; rfl
  | some x =>
    cases hy : A.convert? b with
    | none => rw [Arithmetic.apply, Arithmetic.convert_of_some hx, Arithmetic.convert_of_none hy]; rfl
    | some y =>
      have hop : A.operate .eq x y = .ok (.bool (A.compare x y == .eq)) := rfl
      rw [Arithmetic.apply_of_some hx hy, hop]
      show _ = (A.compare x y == .eq)
      cases A.compare x y == .eq <;> rfl

theorem comparesAs_of_operands {x y : α} (hx : A.convert? a = some x) (hy : A.convert? b = some y) :
    (Value.number a).ComparesAs (.number b) (A.compare x y) := by
  refine Value.comparesAs_of_ordering (fun op hop => ?_) (by rw [equal_eq hA, hx, hy])
  rw [op.apply_number (.inr hop), hA.apply_eq, Arithmetic.apply_of_some hx hy]
  cases op with
  | lt | le | gt | ge => rfl
  | add | sub | mul | div | eq | ne => cases hop

theorem unordered_of_operands (h : A.convert? a = none ∨ A.convert? b = none) :
    (Value.number a).Unordered (.number b) := by
  intro op hop
  rw [op.apply_number (.inr hop), hA.apply_eq, Arithmetic.apply]
  cases hx : A.convert? a with
  | none =>
    rw [Arithmetic.convert_of_none hx]
    exact ⟨_, rfl⟩
  | some x =>
    have hy : A.convert? b = none := h.resolve_left (hx ▸ Option.some_ne_none x)
    rw [Arithmetic.convert_of_some hx, Arithmetic.convert_of_none hy]
    exact ⟨_, rfl⟩

end Operands

/-- Two numbers meet in one arithmetic, whichever comes first. -/
theorem compared (a b : Number) :
    (∃ o, (Value.number a).ComparesAs (.number b) o ∧ (Value.number b).ComparesAs (.number a) o.swap) ∨
      (Value.number a).Unordered (.number b) ∧ (Value.number b).Unordered (.number a) := by
  obtain ⟨α, A, hA, hcompare⟩ := exists_ordered (promote a.kind b.kind)
  have hA' : A.Implements (promote b.kind a.kind) := promote_comm a.kind b.kind ▸ hA
  cases hx : A.convert? a with
  | none => exact .inr ⟨unordered_of_operands hA (.inl hx), unordered_of_operands hA' (.inr hx)⟩
  | some x =>
    cases hy : A.convert? b with
    | none => exact .inr ⟨unordered_of_operands hA (.inr hy), unordered_of_operands hA' (.inl hy)⟩
    | some y =>
      refine .inl ⟨A.compare x y, comparesAs_of_operands hA hx hy, ?_⟩
      rw [← Std.OrientedCmp.eq_swap]
      exact comparesAs_of_operands hA' hy hx

/-- Numbers with values compare as their values do, whatever their kinds. -/
theorem comparesAs_of_value {x y : ℚ} (ha : a.value? = some x) (hb : b.value? = some y) :
    (Value.number a).ComparesAs (.number b) (compare x y) := by
  obtain ⟨α, A, value, panics, hA, hexact, hcompare⟩ := ((isExact_kind ha).promote (isExact_kind hb)).exists_ordered
  obtain ⟨m, hm, rfl⟩ := hexact.convert a x (hA.kind_eq ▸ covers_promote_left _ _) ha
  obtain ⟨n, hn, rfl⟩ := hexact.convert b y (hA.kind_eq ▸ covers_promote_right _ _) hb
  rw [← hcompare]
  exact comparesAs_of_operands hA hm hn

theorem exists_value (h : a.kind.IsExact) : ∃ x, a.value? = some x := by
  cases a with
  | int | long | bigInt | decimal => exact ⟨_, rfl⟩
  | float => exact absurd rfl h.1
  | double => exact absurd rfl h.2

end Number

/-! ## Values -/

namespace Value

theorem string_comparesAs (s t : String) : (string s).ComparesAs (string t) (compare s t) := by
  refine comparesAs_of_ordering (fun op hop => ?_) ?_
  · cases op with
    | lt | le | gt | ge => rfl
    | add | sub | mul | div | eq | ne => cases hop
  · show (s == t) = (compare s t == .eq)
    rw [Bool.eq_iff_iff, beq_iff_eq, beq_iff_eq, Std.LawfulEqCmp.compare_eq_iff_eq]

theorem bool_comparesAs (b c : Bool) : (bool b).ComparesAs (bool c) (compare b c) := by
  refine comparesAs_of_ordering (fun op hop => ?_) ?_
  · cases op with
    | lt | le | gt | ge => rfl
    | add | sub | mul | div | eq | ne => cases hop
  · show (b == c) = (compare b c == .eq)
    rw [Bool.eq_iff_iff, beq_iff_eq, beq_iff_eq, Std.LawfulEqCmp.compare_eq_iff_eq]

/-- Values that are not both numbers, texts or truth values have no order. -/
theorem unordered (hn : v.number? = none ∨ w.number? = none) (hs : v.string? = none ∨ w.string? = none)
    (hb : v.bool? = none ∨ w.bool? = none) : v.Unordered w := by
  intro op hop
  have hother : op.apply v w = op.applyOther v w := by
    have hadd : op ≠ .add := by
      rintro rfl
      cases hop
    have happly : op.apply v w = op.applyUnequal v w := by
      cases op with
      | eq | ne => cases hop
      | _ => rfl
    rw [happly, BinaryOp.applyUnequal, if_neg fun h => hadd h.1]
    obtain h | h := hn
    · simp [kind?, h]
    · cases hv : v.kind? <;> simp [kind?, h]
  rw [hother]
  cases v with
  | string s =>
    cases w with
    | string => simp [string?] at hs
    | number n =>
      cases op with
      | lt | le | gt | ge => exact ⟨_, rfl⟩
      | add | sub | mul | div | eq | ne => cases hop
    | _ => exact ⟨_, BinaryOp.applyOther_string op rfl rfl⟩
  | bool b =>
    have hw : w.bool? = none := hb.resolve_left (Option.some_ne_none b)
    exact ⟨_, BinaryOp.applyOther_bool op hw⟩
  | _ => exact ⟨_, BinaryOp.applyOther_left op rfl rfl⟩

/-- The sorts of values that can be ordered. -/
theorem sort_cases (v w : Value) :
    (∃ a b, v = number a ∧ w = number b) ∨ (∃ s t, v = string s ∧ w = string t) ∨ (∃ b c, v = bool b ∧ w = bool c) ∨
      v.Unordered w ∧ w.Unordered v := by
  by_cases hn : v.number? = none ∨ w.number? = none
  · by_cases hs : v.string? = none ∨ w.string? = none
    · by_cases hb : v.bool? = none ∨ w.bool? = none
      · exact .inr (.inr (.inr ⟨unordered hn hs hb, unordered hn.symm hs.symm hb.symm⟩))
      · simp only [not_or, Option.ne_none_iff_exists'] at hb
        obtain ⟨⟨b, hv⟩, c, hw⟩ := hb
        exact .inr (.inr (.inl ⟨b, c, eq_bool hv, eq_bool hw⟩))
    · simp only [not_or, Option.ne_none_iff_exists'] at hs
      obtain ⟨⟨s, hv⟩, t, hw⟩ := hs
      exact .inr (.inl ⟨s, t, eq_string hv, eq_string hw⟩)
  · simp only [not_or, Option.ne_none_iff_exists'] at hn
    obtain ⟨⟨a, hv⟩, b, hw⟩ := hn
    exact .inl ⟨a, b, eq_number hv, eq_number hw⟩

/-- Two values can be ordered whichever comes first, and both ways by the same order, or neither way. -/
theorem compared (v w : Value) :
    (∃ o, v.ComparesAs w o ∧ w.ComparesAs v o.swap) ∨ v.Unordered w ∧ w.Unordered v := by
  obtain ⟨a, b, rfl, rfl⟩ | ⟨s, t, rfl, rfl⟩ | ⟨b, c, rfl, rfl⟩ | h := sort_cases v w
  · exact a.compared b
  · refine .inl ⟨_, string_comparesAs s t, ?_⟩
    rw [← Std.OrientedCmp.eq_swap]
    exact string_comparesAs t s
  · refine .inl ⟨_, bool_comparesAs b c, ?_⟩
    rw [← Std.OrientedCmp.eq_swap]
    exact bool_comparesAs c b
  · exact .inr h

/-! ## The order of values that are no floating-point numbers -/

/-- The order of numbers by value, of texts, and of truth values. -/
inductive Precedes : Value → Value → Prop
  | number {a b : Number} {x y : ℚ} :
    a.value? = some x → b.value? = some y → x < y → Precedes (.number a) (.number b)
  | string {s t : String} : compare s t = .lt → Precedes (.string s) (.string t)
  | bool {b c : Bool} : compare b c = .lt → Precedes (.bool b) (.bool c)

theorem Precedes.trans (huv : u.Precedes v) (hvw : v.Precedes w) : u.Precedes w := by
  cases huv with
  | number ha hb hxy =>
    cases hvw with
    | number hb' hc hyz =>
      obtain rfl := Option.some.inj (hb.symm.trans hb')
      exact .number ha hc (hxy.trans hyz)
  | string hst =>
    cases hvw with
    | string htu => exact .string (Std.TransCmp.lt_trans hst htu)
  | bool hbc =>
    cases hvw with
    | bool hcd => exact .bool (Std.TransCmp.lt_trans hbc hcd)

theorem NotFloating.exists_value (h : (Value.number a).NotFloating) : ∃ x, a.value? = some x :=
  Number.exists_value (h _ rfl)

theorem lt_iff_precedes (hv : v.NotFloating) (hw : w.NotFloating) :
    BinaryOp.lt.apply v w = .ok (.bool true) ↔ v.Precedes w := by
  obtain ⟨a, b, rfl, rfl⟩ | ⟨s, t, rfl, rfl⟩ | ⟨b, c, rfl, rfl⟩ | ⟨h, -⟩ := sort_cases v w
  · obtain ⟨x, ha⟩ := hv.exists_value
    obtain ⟨y, hb⟩ := hw.exists_value
    rw [(Number.comparesAs_of_value ha hb).lt_iff, compare_lt_iff_lt]
    constructor
    · exact .number ha hb
    · rintro ⟨ha', hb', hxy⟩
      obtain rfl := Option.some.inj (ha.symm.trans ha')
      obtain rfl := Option.some.inj (hb.symm.trans hb')
      exact hxy
  · rw [(string_comparesAs s t).lt_iff]
    exact ⟨.string, fun (.string h) => h⟩
  · rw [(bool_comparesAs b c).lt_iff]
    exact ⟨.bool, fun (.bool h) => h⟩
  · refine iff_of_false h.lt_ne ?_
    rintro (⟨ha, hb, -⟩ | - | -)
    · exact (Number.comparesAs_of_value ha hb).ordered h
    · exact (string_comparesAs _ _).ordered h
    · exact (bool_comparesAs _ _).ordered h

/-! ## All of it together -/

theorem ComparesAs.lt_decide {κ : Type} [LinearOrder κ] {x y : κ} (h : v.ComparesAs w (compare x y)) :
    BinaryOp.lt.apply v w = .ok (.bool (decide (x < y))) := by
  have hlt : (compare x y == .lt) = decide (x < y) := by
    rw [Bool.eq_iff_iff, beq_iff_eq, decide_eq_true_iff, compare_lt_iff_lt]
  exact hlt ▸ h .lt rfl

/-- The answers of the operators on two values, in both orders, from those of `<`, `==` and `>`. -/
structure Answered (v w : Value) (less same greater : Bool) : Prop where
  /-- Just one of the three is true. -/
  one : less.toNat + same.toNat + greater.toNat = 1
  lt : BinaryOp.lt.apply v w = .ok (.bool less)
  eq : BinaryOp.eq.apply v w = .ok (.bool same)
  gt : BinaryOp.gt.apply v w = .ok (.bool greater)
  le : BinaryOp.le.apply v w = .ok (.bool (!greater))
  ge : BinaryOp.ge.apply v w = .ok (.bool (!less))
  lt_swap : BinaryOp.lt.apply w v = .ok (.bool greater)
  gt_swap : BinaryOp.gt.apply w v = .ok (.bool less)

theorem ComparesAs.answered (h : v.ComparesAs w o) (hswap : w.ComparesAs v o.swap) :
    v.Answered w (o == .lt) (o == .eq) (o == .gt) where
  one := by cases o <;> rfl
  lt := h .lt rfl
  eq := h .eq rfl
  gt := h .gt rfl
  le := h .le rfl
  ge := h .ge rfl
  lt_swap := by rw [hswap .lt rfl]; cases o <;> rfl
  gt_swap := by rw [hswap .gt rfl]; cases o <;> rfl

/-- How the comparison operators agree with each other. -/
structure ComparedCoherently (v w : Value) : Prop where
  /-- All operators that order answer, or all of them fail. -/
  ordered : (∃ less same greater, v.Answered w less same greater) ∨ v.Unordered w ∧ w.Unordered v
  ne : ∃ same, BinaryOp.eq.apply v w = .ok (.bool same) ∧ BinaryOp.ne.apply v w = .ok (.bool (!same))
  trans : ∀ u : Value, u.NotFloating → v.NotFloating → w.NotFloating →
    BinaryOp.lt.apply u v = .ok (.bool true) → BinaryOp.lt.apply v w = .ok (.bool true) →
    BinaryOp.lt.apply u w = .ok (.bool true)
  /-- Numbers are ordered by the rational numbers that they stand for. -/
  value : ∀ a b, v = .number a → w = .number b → v.NotFloating → w.NotFloating →
    ∃ x y, a.value? = some x ∧ b.value? = some y ∧ BinaryOp.lt.apply v w = .ok (.bool (decide (x < y)))
  /-- Floating-point numbers of one kind are ordered by their bits, also those that are not a number. -/
  single : ∀ x y, v = .float x → w = .float y → BinaryOp.lt.apply v w = .ok (.bool (decide
    (Floating.Format.single.orderKey x.bits.toNat < Floating.Format.single.orderKey y.bits.toNat)))
  double : ∀ x y, v = .double x → w = .double y → BinaryOp.lt.apply v w = .ok (.bool (decide
    (Floating.Format.double.orderKey x.bits.toNat < Floating.Format.double.orderKey y.bits.toNat)))

theorem comparedCoherently (v w : Value) : v.ComparedCoherently w where
  ordered := (compared v w).imp_left fun ⟨_, h, hswap⟩ => ⟨_, _, _, h.answered hswap⟩
  ne := ⟨_, rfl, rfl⟩
  trans u hu hv hw huv hvw :=
    (lt_iff_precedes hu hw).2 (((lt_iff_precedes hu hv).1 huv).trans ((lt_iff_precedes hv hw).1 hvw))
  value := by
    rintro a b rfl rfl hv hw
    obtain ⟨x, ha⟩ := hv.exists_value
    obtain ⟨y, hb⟩ := hw.exists_value
    exact ⟨x, y, ha, hb, (Number.comparesAs_of_value ha hb).lt_decide⟩
  single := by
    rintro x y rfl rfl
    have h : (float x).ComparesAs (float y) (Floating.Single.compare x y) :=
      Number.comparesAs_of_operands (a := .float x) (b := .float y) Arithmetic.implements_float rfl rfl
    exact h.lt_decide
  double := by
    rintro x y rfl rfl
    have h : (double x).ComparesAs (double y) (Floating.Double.compare x y) :=
      Number.comparesAs_of_operands (a := .double x) (b := .double y) Arithmetic.implements_double rfl rfl
    exact h.lt_decide

/-- What is not a number comes after all numbers, or before them if it is negative. -/
example : let x : Floating.Double := ⟨0x7ff8000000000000⟩
    let infinity : Floating.Double := ⟨0x7ff0000000000000⟩
    BinaryOp.lt.apply (double infinity) (double x) = .ok (.bool true) ∧
      BinaryOp.lt.apply (double (-x)) (double (-infinity)) = .ok (.bool true) := ⟨rfl, rfl⟩

/-- Numbers of three kinds, ordered by their values. -/
theorem lt_across_kinds : BinaryOp.lt.apply (int 2) (bigInt 3) = .ok (.bool true) := by
  have hint : (int 2).NotFloating := notFloating_number ⟨nofun, nofun⟩
  have hdecimal : (decimal ⟨25, 1⟩).NotFloating := notFloating_number ⟨nofun, nofun⟩
  have hbig : (bigInt 3).NotFloating := notFloating_number ⟨nofun, nofun⟩
  exact (comparedCoherently (decimal ⟨25, 1⟩) (bigInt 3)).trans (int 2) hint hdecimal hbig rfl rfl

end Value

end QueryTemplate
