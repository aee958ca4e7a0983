import QueryTemplate.Proofs.Value.Comparison

/-!
# Equality

Equality in the language takes numbers to their common kind; strict equality looks at the kinds first. On values that
are not two numbers of unlike kinds the two are the same (`Value.equal_eq_same`), so strictly equal values are equal.
Equality is reflexive and symmetric on all values, those that are not a number among them, and among values that are no
floating-point numbers it is transitive: there it is equality of the rational numbers (`Value.equatedCoherently`). Those
that are not a number are told apart by sign and payload.
-/

namespace QueryTemplate

open NumericKind

variable {a b : Number} {u v w : Value}

/-- Elements that their keys tell apart are equal just where the keys compare as equal. -/
theorem beq_compare_eq {α κ : Type} [LinearOrder κ] [BEq α] [LawfulBEq α] (key : α → κ)
    (hkey : ∀ {x y}, key x = key y → x = y) (x y : α) : (compare (key x) (key y) == .eq) = (x == y) := by
  rw [Bool.eq_iff_iff, beq_iff_eq, beq_iff_eq, compare_eq_iff_eq]
  exact ⟨hkey, congrArg key⟩

namespace Number

/-- Numbers of one kind are equal just where they are the same. -/
theorem equal_eq_same (h : a.kind = b.kind) : (Value.number a).equal (.number b) = a.same b := by
  cases a with
  | int m =>
    cases b with
    | int n =>
      rw [equal_eq (a := .int m) (b := .int n) Arithmetic.implements_int]
      exact beq_compare_eq Int32.toInt Int32.toInt_inj.1 m n
    | _ => cases h
  | long m =>
    cases b with
    | long n =>
      rw [equal_eq (a := .long m) (b := .long n) Arithmetic.implements_long]
      exact beq_compare_eq Int64.toInt Int64.toInt_inj.1 m n
    | _ => cases h
  | float x =>
    cases b with
    | float y =>
      rw [equal_eq (a := .float x) (b := .float y) Arithmetic.implements_float]
      exact beq_compare_eq (fun bits : UInt32 => Floating.Format.single.orderKey bits.toNat)
        (fun hkey => UInt32.toNat_inj.1 (Floating.Format.single.orderKey_inj.1 hkey)) x.bits y.bits
    | _ => cases h
  | double x =>
    cases b with
    | double y =>
      rw [equal_eq (a := .double x) (b := .double y) Arithmetic.implements_double]
      exact beq_compare_eq (fun bits : UInt64 => Floating.Format.double.orderKey bits.toNat)
        (fun hkey => UInt64.toNat_inj.1 (Floating.Format.double.orderKey_inj.1 hkey)) x.bits y.bits
    | _ => cases h
  | bigInt m =>
    cases b with
    | bigInt n =>
      rw [equal_eq (a := .bigInt m) (b := .bigInt n) Arithmetic.implements_bigInt]
      exact beq_compare_eq (fun n : Int => n) id m n
    | _ => cases h
  | decimal d =>
    cases b with
    | decimal e =>
      show _ = d.equals e
      rw [equal_eq (a := .decimal d) (b := .decimal e) Arithmetic.implements_decimal, Decimal.equals_eq_compare]
      rfl
    | _ => cases h

theorem kind_eq_of_same (h : a.same b = true) : a.kind = b.kind := by
  cases a <;> cases b <;> first | rfl | cases h

theorem same_self (a : Number) : a.same a = true := by
  cases a with
  | int | long | bigInt | float | double => exact beq_self_eq_true _
  | decimal d =>
    show d.equals d = true
    exact Decimal.equals_iff.2 rfl

theorem equal_comm (a b : Number) : (Value.number a).equal (.number b) = (Value.number b).equal (.number a) := by
  obtain ⟨α, A, hA, hcompare⟩ := exists_ordered (promote a.kind b.kind)
  rw [equal_eq hA, equal_eq (promote_comm a.kind b.kind ▸ hA)]
  cases A.convert? a with
  | none => cases A.convert? b <;> rfl
  | some x =>
    cases A.convert? b with
    | none => rfl
    | some y =>
      have hswap : A.compare x y = (A.compare y x).swap := Std.OrientedCmp.eq_swap
      show (A.compare x y == .eq) = (A.compare y x == .eq)
      rw [hswap]
      cases A.compare y x <;> rfl

theorem equal_iff_value {x y : ℚ} (ha : a.value? = some x) (hb : b.value? = some y) :
    (Value.number a).equal (.number b) = true ↔ x = y := by
  rw [(comparesAs_of_value ha hb).equal, beq_iff_eq, compare_eq_iff_eq]

end Number

namespace Value

/-! ## Strict equality -/

theorem bytes_beq_iff {x y : ByteArray} : (x == y) = true ↔ x = y := by
  cases x with | mk x =>
  cases y with | mk y =>
  show (x == y) = true ↔ _
  rw [beq_iff_eq, ByteArray.mk.injEq]

theorem same_self (v : Value) : v.same v = true := by
  cases v with
  | number a => exact a.same_self
  | bytes x => exact bytes_beq_iff.2 rfl
  | null => rfl
  | _ => exact beq_self_eq_true _

/-- Values that are not numbers and are the same are the same as the same ones. -/
theorem same_congr (hn : u.number? = none) (h : u.same v = true) (w : Value) : u.same w = v.same w := by
  cases u with
  | number a => cases hn
  | null =>
    cases v with
    | null => rfl
    | _ => cases h
  | bool b =>
    cases v with
    | bool c => rw [beq_iff_eq.1 h]
    | _ => cases h
  | string s =>
    cases v with
    | string t => rw [beq_iff_eq.1 h]
    | _ => cases h
  | bytes x =>
    cases v with
    | bytes y => rw [bytes_beq_iff.1 h]
    | _ => cases h
  | function f =>
    cases v with
    | function g => cases w <;> simp only [same, beq_iff_eq.1 h]
    | _ => cases h
  | mapper f =>
    cases v with
    | mapper g => cases w <;> simp only [same, beq_iff_eq.1 h]
    | _ => cases h
  | type p =>
    cases v with
    | type q => cases w <;> simp only [same, beq_iff_eq.1 h]
    | _ => cases h
  | object o =>
    cases v with
    | object p => cases w <;> simp only [same, beq_iff_eq.1 h]
    | _ => cases h

theorem same_symm (hn : u.number? = none) (h : u.same v = true) : v.same u = true :=
  same_congr hn h u ▸ u.same_self

/-- Numbers are the same as numbers only. -/
theorem number?_eq_none_iff (h : v.same w = true) : v.number? = none ↔ w.number? = none := by
  cases v with
  | number a =>
    cases w with
    | number b => exact iff_of_false nofun nofun
    | _ => cases h
  | _ =>
    cases w with
    | number b => cases h
    | _ => exact iff_of_true rfl rfl

/-! ## Equality -/

theorem equal_of_not_number (hn : v.number? = none ∨ w.number? = none) : v.equal w = v.same w := by
  unfold equal
  obtain h | h := hn
  · simp [kind?, h]
  · cases v.kind? <;> simp [kind?, h]

/-- Equality is strict equality, except that numbers of unlike kinds can be equal. -/
theorem equal_eq_same (h : ∀ k l, v.kind? = some k → w.kind? = some l → k = l) : v.equal w = v.same w := by
  cases hv : v.number? with
  | none => exact equal_of_not_number (.inl hv)
  | some a =>
    cases hw : w.number? with
    | none => exact equal_of_not_number (.inr hw)
    | some b =>
      obtain rfl := eq_number hv
      obtain rfl := eq_number hw
      exact Number.equal_eq_same (h _ _ rfl rfl)

theorem equal_of_same (h : v.same w = true) : v.equal w = true := by
  rw [equal_eq_same, h]
  intro k l hk hl
  cases v with
  | number a =>
    cases w with
    | number b =>
      obtain rfl := Option.some.inj hk
      obtain rfl := Option.some.inj hl
      exact Number.kind_eq_of_same h
    | _ => cases hl
  | _ => cases hk

theorem equal_symm (h : v.equal w = true) : w.equal v = true := by
  by_cases hn : v.number? = none ∨ w.number? = none
  · rw [equal_of_not_number hn] at h
    have hv : v.number? = none := hn.elim id (number?_eq_none_iff h).2
    exact equal_of_same (same_symm hv h)
  · simp only [not_or, Option.ne_none_iff_exists'] at hn
    obtain ⟨⟨a, hv⟩, b, hw⟩ := hn
    obtain rfl := eq_number hv
    obtain rfl := eq_number hw
    rwa [Number.equal_comm]

theorem equal_trans (hu : u.NotFloating) (hv : v.NotFloating) (hw : w.NotFloating) (huv : u.equal v = true)
    (hvw : v.equal w = true) : u.equal w = true := by
  cases hn : v.number? with
  | none =>
    rw [equal_of_not_number (.inr hn)] at huv
    rw [equal_of_not_number (.inl hn)] at hvw
    have hun := (number?_eq_none_iff huv).2 hn
    exact equal_of_same ((same_congr hun huv w).trans hvw)
  | some b =>
    have numbers : ∀ {v' : Value}, v.equal v' = true → ∃ c, v' = .number c := by
      intro v' h
      cases hn' : v'.number? with
      | some c => exact ⟨c, eq_number hn'⟩
      | none =>
        rw [equal_of_not_number (.inr hn')] at h
        rw [(number?_eq_none_iff h).2 hn'] at hn
        cases hn
    obtain ⟨a, rfl⟩ := numbers (equal_symm huv)
    obtain ⟨c, rfl⟩ := numbers hvw
    obtain rfl := eq_number hn
    obtain ⟨x, ha⟩ := hu.exists_value
    obtain ⟨y, hb⟩ := hv.exists_value
    obtain ⟨z, hc⟩ := hw.exists_value
    rw [Number.equal_iff_value ha hb] at huv
    rw [Number.equal_iff_value hb hc] at hvw
    rw [Number.equal_iff_value ha hc, huv, hvw]

/-! ## All of it together -/

/-- How equality agrees with itself and with strict equality. -/
structure EquatedCoherently (v w : Value) : Prop where
  refl : v.equal v = true
  symm : v.equal w = w.equal v
  trans : ∀ u : Value, u.NotFloating → v.NotFloating → w.NotFloating →
    u.equal v = true → v.equal w = true → u.equal w = true
  /-- Numbers are equal just where the rational numbers that they stand for are. -/
  value : ∀ a b, v = .number a → w = .number b → v.NotFloating → w.NotFloating →
    ∃ x y, a.value? = some x ∧ b.value? = some y ∧ (v.equal w = true ↔ x = y)
  /-- Floating-point numbers of one kind are equal just where their bits are, also those that are not a number. -/
  single : ∀ x y, v = .float x → w = .float y → (v.equal w = true ↔ x.bits = y.bits)
  double : ∀ x y, v = .double x → w = .double y → (v.equal w = true ↔ x.bits = y.bits)
  of_same : v.same w = true → v.equal w = true
  eq_same : (∀ k l, v.kind? = some k → w.kind? = some l → k = l) → v.equal w = v.same w

theorem equatedCoherently (v w : Value) : v.EquatedCoherently w where
  refl := equal_of_same v.same_self
  symm := Bool.eq_iff_iff.2 ⟨equal_symm, equal_symm⟩
  trans _ := equal_trans
  value := by
    rintro a b rfl rfl hv hw
    obtain ⟨x, ha⟩ := hv.exists_value
    obtain ⟨y, hb⟩ := hw.exists_value
    exact ⟨x, y, ha, hb, Number.equal_iff_value ha hb⟩
  single := by
    rintro x y rfl rfl
    have h : (float x).equal (float y) = (x.bits == y.bits) := Number.equal_eq_same (a := .float x) (b := .float y) rfl
    rw [h, beq_iff_eq]
  double := by
    rintro x y rfl rfl
    have h : (double x).equal (double y) = (x.bits == y.bits) :=
      Number.equal_eq_same (a := .double x) (b := .double y) rfl
    rw [h, beq_iff_eq]
  of_same := equal_of_same
  eq_same := equal_eq_same

/-- What is not a number is equal to itself, and not to its negative, which has another sign. -/
example : let x : Floating.Double := ⟨0x7ff8000000000000⟩
    x.decode = .nan ∧ (double x).equal (double x) = true ∧ (double x).equal (double (-x)) = false := by decide +kernel

/-- A decimal with a trailing zero, and integers of two kinds with its value. -/
theorem equal_across_kinds : (int 2).equal (decimal ⟨20, 1⟩) = true ∧ (decimal ⟨20, 1⟩).equal (bigInt 2) = true ∧
    (int 2).equal (bigInt 2) = true ∧ (int 2).same (bigInt 2) = false := by
  have hint : (int 2).NotFloating := notFloating_number ⟨nofun, nofun⟩
  have hdecimal : (decimal ⟨20, 1⟩).NotFloating := notFloating_number ⟨nofun, nofun⟩
  have hbig : (bigInt 2).NotFloating := notFloating_number ⟨nofun, nofun⟩
  have hleft : (int 2).equal (decimal ⟨20, 1⟩) = true := by decide +kernel
  have hright : (decimal ⟨20, 1⟩).equal (bigInt 2) = true := by decide +kernel
  exact ⟨hleft, hright, (equatedCoherently (decimal ⟨20, 1⟩) (bigInt 2)).trans (int 2) hint hdecimal hbig hleft hright,
    rfl⟩

end Value

end QueryTemplate
