import Mathlib.Order.Compare
import QueryTemplate.Proofs.Value.Exact

/-!
# The order of numbers

Each arithmetic orders its numbers by a key: integers by themselves, floating-point numbers by the place of their bits,
decimals by their values. For decimals that takes a proof, since only those of one sign and one magnitude are brought
to a common scale (`Decimal.compare_eq`), and since equality of decimals counts zeros instead
(`Decimal.equals_eq_compare`). So the order of every kind is a linear one (`NumericKind.exists_ordered`),
and where the numbers have values it is the order of the values (`NumericKind.IsExact.exists_ordered`).
-/

namespace QueryTemplate

/-- What two comparisons of unlike elements have to agree on. -/
theorem compare_eq_compare_of_ne {α β : Type} [LinearOrder α] [LinearOrder β] {x y : α} {u v : β} (hne : x ≠ y)
    (hlt : x < y → u < v) (hgt : y < x → v < u) : compare x y = compare u v := by
  obtain h | h := lt_or_gt_of_ne hne
  · rw [compare_lt_iff_lt.2 h, compare_lt_iff_lt.2 (hlt h)]
  · rw [compare_gt_iff_gt.2 h, compare_gt_iff_gt.2 (hgt h)]

theorem compare_intCast (n m : Int) : compare (n : ℚ) (m : ℚ) = compare n m := by
  rw [← cmp_eq_compare, ← cmp_eq_compare]
  exact Int.cast_strictMono.cmp_map_eq n m

/-! ## The number of digits -/

theorem digitCount_pos (n : Nat) : 0 < digitCount n := by
  rw [digitCount, naturalDigits_eq_toDigits]
  exact Nat.length_toDigits_pos

theorem lt_pow_digitCount (n : Nat) : n < 10 ^ digitCount n :=
  (digitCount_le_iff (digitCount_pos n)).1 (Nat.le_refl _)

theorem pow_digitCount_le {n : Nat} (h : n ≠ 0) : 10 ^ (digitCount n - 1) ≤ n := by
  have hpos := digitCount_pos n
  by_cases hone : digitCount n = 1
  · rw [hone]
    exact Nat.pos_of_ne_zero h
  · have hmore : ¬digitCount n ≤ digitCount n - 1 := by omega
    rw [digitCount_le_iff (by omega)] at hmore
    exact Nat.le_of_not_lt hmore

/-! ## Decimals -/

namespace Decimal

variable {a b : Decimal}

/-- A power of ten, as a factor that keeps signs and order. -/
theorem scale_pos (scale : Int) : (0 : ℚ) < 10 ^ (-scale) := by positivity

theorem abs_value (a : Decimal) : |a.value| = a.coefficient.natAbs * 10 ^ (-a.scale) := by
  rw [value, abs_mul, abs_of_pos (scale_pos a.scale), ← Int.cast_abs, Int.abs_eq_natAbs, Int.cast_natCast]

theorem abs_value_lt (a : Decimal) : |a.value| < 10 ^ a.magnitude := by
  have hlt : (a.coefficient.natAbs : ℚ) < 10 ^ digitCount a.coefficient.natAbs := by
    exact_mod_cast lt_pow_digitCount _
  rw [abs_value, magnitude, sub_eq_add_neg, zpow_add₀ (by norm_num), zpow_natCast]
  exact mul_lt_mul_of_pos_right hlt (scale_pos a.scale)

theorem le_abs_value (h : a.coefficient ≠ 0) : 10 ^ (a.magnitude - 1) ≤ |a.value| := by
  have hle : (10 : ℚ) ^ (digitCount a.coefficient.natAbs - 1) ≤ a.coefficient.natAbs := by
    exact_mod_cast pow_digitCount_le (Int.natAbs_ne_zero.2 h)
  have hmagnitude : a.magnitude - 1 = ((digitCount a.coefficient.natAbs - 1 : Nat) : Int) + -a.scale := by
    have hpos := digitCount_pos a.coefficient.natAbs
    rw [magnitude]
    omega
  rw [abs_value, hmagnitude, zpow_add₀ (by norm_num), zpow_natCast]
  exact mul_le_mul_of_nonneg_right hle (scale_pos a.scale).le

/-- The value of the smaller magnitude is closer to zero. -/
theorem abs_value_lt_of_magnitude_lt (hb : b.coefficient ≠ 0) (h : a.magnitude < b.magnitude) : |a.value| < |b.value| :=
  calc |a.value| < 10 ^ a.magnitude := abs_value_lt a
    _ ≤ 10 ^ (b.magnitude - 1) := zpow_le_zpow_right₀ (by norm_num) (by omega)
    _ ≤ |b.value| := le_abs_value hb

theorem value_pos (h : 0 < a.coefficient) : 0 < a.value := mul_pos (Int.cast_pos.2 h) (scale_pos a.scale)

theorem value_neg_of_neg (h : a.coefficient < 0) : a.value < 0 :=
  mul_neg_of_neg_of_pos (Int.cast_lt_zero.2 h) (scale_pos a.scale)

theorem value_eq_zero (h : a.coefficient = 0) : a.value = 0 := by rw [value, h, Int.cast_zero, zero_mul]

/-- Values of unlike sign are ordered by it. -/
theorem value_lt_of_sign_lt (h : a.coefficient.sign < b.coefficient.sign) : a.value < b.value := by
  obtain ha | ha | ha := lt_trichotomy a.coefficient 0
  · obtain hb | hb | hb := lt_trichotomy b.coefficient 0
    · rw [Int.sign_eq_neg_one_of_neg ha, Int.sign_eq_neg_one_of_neg hb] at h
      exact absurd h (lt_irrefl _)
    · exact (value_neg_of_neg ha).trans_eq (value_eq_zero hb).symm
    · exact (value_neg_of_neg ha).trans (value_pos hb)
  · have hb : 0 < b.coefficient := by rwa [ha, Int.sign_zero, Int.sign_pos_iff] at h
    exact (value_eq_zero ha).trans_lt (value_pos hb)
  · have hb := Int.sign_trichotomy b.coefficient
    rw [Int.sign_eq_one_of_pos ha] at h
    omega

/-- Values of one sign and unlike magnitudes are ordered by these. -/
theorem compare_magnitude (hsign : a.coefficient.sign = b.coefficient.sign) (ha : a.coefficient ≠ 0)
    (hmagnitude : a.magnitude ≠ b.magnitude) :
    compare (a.coefficient.sign * a.magnitude) (a.coefficient.sign * b.magnitude) = compare a.value b.value := by
  have hb : b.coefficient ≠ 0 := by rwa [Ne, ← Int.sign_eq_zero_iff_zero, ← hsign, Int.sign_eq_zero_iff_zero]
  have hlt := abs_value_lt_of_magnitude_lt (a := a) hb
  have hgt := abs_value_lt_of_magnitude_lt (a := b) ha
  obtain ha | ha := lt_or_gt_of_ne ha
  · have hb : b.coefficient < 0 := by rwa [← Int.sign_neg_iff, ← hsign, Int.sign_neg_iff]
    rw [abs_of_neg (value_neg_of_neg ha), abs_of_neg (value_neg_of_neg hb), neg_lt_neg_iff] at hlt hgt
    rw [Int.sign_eq_neg_one_of_neg ha]
    exact compare_eq_compare_of_ne (by omega) (fun h => hgt (by omega)) (fun h => hlt (by omega))
  · have hb : 0 < b.coefficient := by rwa [← Int.sign_pos_iff, ← hsign, Int.sign_pos_iff]
    rw [abs_of_pos (value_pos ha), abs_of_pos (value_pos hb)] at hlt hgt
    rw [Int.sign_eq_one_of_pos ha]
    exact compare_eq_compare_of_ne (by omega) (fun h => hlt (by omega)) (fun h => hgt (by omega))

/-- At a common scale the coefficients are ordered as the values are. -/
theorem compare_coefficientAt {scale : Int} (ha : a.scale ≤ scale) (hb : b.scale ≤ scale) :
    compare (a.coefficientAt scale) (b.coefficientAt scale) = compare a.value b.value := by
  have hmono : StrictMono fun n : Int => (n : ℚ) * 10 ^ (-scale) := fun n m h =>
    mul_lt_mul_of_pos_right (Int.cast_lt.2 h) (scale_pos scale)
  rw [value_eq_coefficientAt a ha, value_eq_coefficientAt b hb, ← cmp_eq_compare, ← cmp_eq_compare]
  exact (hmono.cmp_map_eq _ _).symm

/-- Decimals are ordered by their values, whatever their scales. -/
theorem compare_eq (a b : Decimal) : a.compare b = compare a.value b.value := by
  unfold Decimal.compare
  simp only
  split
  next hsign => exact compare_eq_compare_of_ne hsign value_lt_of_sign_lt value_lt_of_sign_lt
  next hsign =>
    have hsign := not_not.1 hsign
    split
    next hzero =>
      have ha := Int.sign_eq_zero_iff_zero.1 hzero
      have hb := Int.sign_eq_zero_iff_zero.1 (hsign ▸ hzero)
      rw [value_eq_zero ha, value_eq_zero hb]
      exact Std.ReflCmp.compare_self.symm
    next hzero =>
      split
      next hmagnitude => exact compare_magnitude hsign (mt Int.sign_eq_zero_iff_zero.2 hzero) hmagnitude
      next => exact compare_coefficientAt (Int.le_max_left ..) (Int.le_max_right ..)

/-! ## Equal decimals -/

theorem withoutZeros?_eq_some_iff {count n m : Nat} : withoutZeros? count n = some m ↔ n = m * 10 ^ count := by
  induction count generalizing n with
  | zero => simp [withoutZeros?]
  | succ count ih =>
    have htens : m * 10 ^ (count + 1) = m * 10 ^ count * 10 := by rw [Nat.pow_succ, Nat.mul_assoc]
    rw [withoutZeros?, htens]
    split
    next h =>
      rw [ih]
      omega
    next h => exact iff_of_false nofun (by omega)

/-- At a common scale equal values have equal coefficients. -/
theorem value_eq_iff_natAbs (hsign : a.coefficient.sign = b.coefficient.sign) (hscale : a.scale ≤ b.scale) :
    a.value = b.value ↔ b.coefficient.natAbs = a.coefficient.natAbs * 10 ^ (b.scale - a.scale).toNat := by
  have hpow : (10 : ℚ) ^ (-a.scale) = 10 ^ (b.scale - a.scale).toNat * 10 ^ (-b.scale) := by
    rw [← zpow_natCast, Int.toNat_of_nonneg (by omega), ← zpow_add₀ (by norm_num)]
    congr 1
    omega
  have hcoefficient : a.value = b.value ↔ a.coefficient * 10 ^ (b.scale - a.scale).toNat = b.coefficient := by
    rw [value, value, hpow, ← mul_assoc, mul_left_inj' (scale_pos b.scale).ne']
    exact_mod_cast Iff.rfl
  rw [hcoefficient]
  constructor
  · intro h
    rw [← h, Int.natAbs_mul, Int.natAbs_pow]
    rfl
  · intro h
    rw [← Int.sign_mul_natAbs b.coefficient, h, ← hsign]
    push_cast
    rw [← mul_assoc, Int.sign_mul_abs]

/-- Decimals are equal just where their values are. -/
theorem equals_iff : a.equals b = true ↔ a.value = b.value := by
  unfold equals
  split
  next hsign =>
    refine iff_of_false nofun ?_
    obtain h | h := lt_or_gt_of_ne hsign
    · exact (value_lt_of_sign_lt h).ne
    · exact (value_lt_of_sign_lt h).ne'
  next hsign =>
    have hsign := not_not.1 hsign
    split
    next hzero =>
      have ha : a.coefficient = 0 := beq_iff_eq.1 hzero
      have hb : b.coefficient = 0 := Int.sign_eq_zero_iff_zero.1 (hsign ▸ Int.sign_eq_zero_iff_zero.2 ha)
      exact iff_of_true rfl ((value_eq_zero ha).trans (value_eq_zero hb).symm)
    next =>
      split
      next hscale => rw [beq_iff_eq, withoutZeros?_eq_some_iff, value_eq_iff_natAbs hsign hscale]
      next hscale =>
        rw [beq_iff_eq, withoutZeros?_eq_some_iff, eq_comm (a := a.value),
          value_eq_iff_natAbs hsign.symm (Int.le_of_not_le hscale)]

/-- Equality of decimals, which does not go by their order, agrees with it. -/
theorem equals_eq_compare (a b : Decimal) : a.equals b = (a.compare b == .eq) := by
  rw [Bool.eq_iff_iff, equals_iff, compare_eq, beq_iff_eq, compare_eq_iff_eq]

end Decimal

/-! ## Floating-point numbers -/

/-- Every bit pattern has a place of its own. -/
theorem Floating.Format.orderKey_inj (format : Floating.Format) {m n : Nat} :
    format.orderKey m = format.orderKey n ↔ m = n := by
  unfold orderKey
  split <;> split <;> omega

/-! ## The arithmetic of each kind -/

namespace Arithmetic

theorem compare_decimal : decimal.compare = compareOn Decimal.value := by
  funext a b
  exact Decimal.compare_eq a b

end Arithmetic

namespace NumericKind

/-- The numbers of every kind are in a linear order. -/
theorem exists_ordered (kind : NumericKind) :
    ∃ (α : Type) (A : Arithmetic α), A.Implements kind ∧ Std.TransCmp A.compare := by
  cases kind with
  | int => exact ⟨_, _, Arithmetic.implements_int, inferInstanceAs (Std.TransCmp (compareOn Int32.toInt))⟩
  | long => exact ⟨_, _, Arithmetic.implements_long, inferInstanceAs (Std.TransCmp (compareOn Int64.toInt))⟩
  | float =>
    exact ⟨_, _, Arithmetic.implements_float,
      inferInstanceAs (Std.TransCmp
        (compareOn fun x : Floating.Single => Floating.Format.single.orderKey x.bits.toNat))⟩
  | double =>
    exact ⟨_, _, Arithmetic.implements_double,
      inferInstanceAs (Std.TransCmp
        (compareOn fun x : Floating.Double => Floating.Format.double.orderKey x.bits.toNat))⟩
  | bigInt => exact ⟨_, _, Arithmetic.implements_bigInt, inferInstanceAs (Std.TransCmp (compareOn (id : Int → Int)))⟩
  | decimal =>
    exact ⟨_, _, Arithmetic.implements_decimal,
      Arithmetic.compare_decimal ▸ inferInstanceAs (Std.TransCmp (compareOn Decimal.value))⟩

/-- Numbers with values are ordered by them. -/
theorem IsExact.exists_ordered {kind : NumericKind} (h : kind.IsExact) :
    ∃ (α : Type) (A : Arithmetic α) (value : α → ℚ) (panics : BinaryOp → α → α → Prop),
      A.Implements kind ∧ A.Exact value panics ∧ ∀ x y, A.compare x y = compare (value x) (value y) := by
  cases kind with
  | int =>
    exact ⟨_, _, _, _, Arithmetic.implements_int, Arithmetic.exact_int, fun _ _ => (compare_intCast _ _).symm⟩
  | long =>
    exact ⟨_, _, _, _, Arithmetic.implements_long, Arithmetic.exact_long, fun _ _ => (compare_intCast _ _).symm⟩
  | float => exact absurd rfl h.1
  | double => exact absurd rfl h.2
  | bigInt =>
    exact ⟨_, _, _, _, Arithmetic.implements_bigInt, Arithmetic.exact_bigInt, fun _ _ => (compare_intCast _ _).symm⟩
  | decimal => exact ⟨_, _, _, _, Arithmetic.implements_decimal, Arithmetic.exact_decimal, Decimal.compare_eq⟩

end NumericKind

end QueryTemplate
