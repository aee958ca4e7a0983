import Mathlib.Algebra.Order.Field.Power
import Mathlib.Algebra.Order.Field.Rat
import Mathlib.Tactic.NormNum
import Mathlib.Tactic.Positivity
import Mathlib.Tactic.Ring
import QueryTemplate.Value.Number

/-!
# Numbers as rationals

The numbers that are not of a floating-point kind stand for rational numbers. Decimals are negated, added,
subtracted and multiplied exactly, at whatever scales they are written, unless there is no result. It is said of each
operation when that is so (`Decimal.add?_eq_none_iff`, `Decimal.mul?_eq_none_iff`, `Decimal.div?_eq_none_iff`).
-/

namespace QueryTemplate

/-! ## Decimals -/

namespace Decimal

variable (a b : Decimal)

/-- The rational number that a decimal stands for. -/
def value : ℚ := a.coefficient * 10 ^ (-a.scale)

theorem value_ofInt (n : Int) : (ofInt n).value = n := by simp [value, ofInt]

theorem value_eq_zero_iff : a.value = 0 ↔ a.isZero = true := by
  have hpow : (10 : ℚ) ^ (-a.scale) ≠ 0 := zpow_ne_zero _ (by norm_num)
  rw [value, mul_eq_zero, or_iff_left hpow, isZero, beq_iff_eq, Int.cast_eq_zero]

/-- The value does not depend on the scale at which it is written. -/
theorem value_eq_coefficientAt {scale : Int} (h : a.scale ≤ scale) :
    a.value = a.coefficientAt scale * 10 ^ (-scale) := by
  rw [coefficientAt]
  split
  next hzero => rw [(value_eq_zero_iff a).2 hzero, Int.cast_zero, zero_mul]
  next =>
    have hexponent : -a.scale = ((scale - a.scale).toNat : Int) + -scale := by
      rw [Int.toNat_of_nonneg (Int.sub_nonneg_of_le h)]
      ring
    have hpow : ((Nat.pow 10 (scale - a.scale).toNat : Nat) : ℚ) = 10 ^ (scale - a.scale).toNat := Nat.cast_pow 10 _
    rw [value, hexponent, zpow_add₀ (by norm_num), zpow_natCast, Int.cast_mul, Int.cast_natCast, hpow]
    ring

theorem value_neg : (-a).value = -a.value := by
  show ((-a.coefficient : Int) : ℚ) * 10 ^ (-a.scale) = _
  rw [value, Int.cast_neg, neg_mul]

/-- Whether one of two decimals cannot be brought to the scale of the other one, as the scales differ by more than one
has bits for. Zero can always. -/
def TooFarApart : Prop :=
  a.isZero = false ∧ 2 ^ 63 ≤ b.scale - a.scale ∨ b.isZero = false ∧ 2 ^ 63 ≤ a.scale - b.scale

theorem reaches_iff {scale : Int} (h : a.scale ≤ scale) :
    a.reaches scale = true ↔ ¬(a.isZero = false ∧ 2 ^ 63 ≤ scale - a.scale) := by
  have hfits : fitsInto scaleBits (scale - a.scale) = true ↔ scale - a.scale < 2 ^ 63 := by
    rw [fitsInto_iff]
    show -(2 ^ 63 : Int) ≤ scale - a.scale ∧ scale - a.scale < 2 ^ 63 ↔ _
    omega
  rw [reaches, Bool.or_eq_true, hfits, not_and_or, Bool.not_eq_false, Int.not_le]

theorem atLargerScale?_cases (join : Int → Int → Int) :
    a.TooFarApart b ∧ atLargerScale? join a b = none ∨
      ¬a.TooFarApart b ∧ atLargerScale? join a b =
        some ⟨join (a.coefficientAt (max a.scale b.scale)) (b.coefficientAt (max a.scale b.scale)),
          max a.scale b.scale⟩ := by
  have hreaches : (a.reaches (max a.scale b.scale) && b.reaches (max a.scale b.scale)) = true ↔ ¬a.TooFarApart b := by
    rw [Bool.and_eq_true, reaches_iff a (Int.le_max_left ..), reaches_iff b (Int.le_max_right ..), ← not_or,
      TooFarApart]
    exact not_congr (or_congr (and_congr_right fun _ => by omega) (and_congr_right fun _ => by omega))
  by_cases hfar : a.TooFarApart b
  · exact .inl ⟨hfar, if_neg fun h => hreaches.1 h hfar⟩
  · exact .inr ⟨hfar, if_pos (hreaches.2 hfar)⟩

theorem add?_eq_none_iff : a.add? b = none ↔ a.TooFarApart b := by
  obtain ⟨hfar, hnone⟩ | ⟨hfar, hsome⟩ := atLargerScale?_cases a b (· + ·)
  · exact iff_of_true hnone hfar
  · exact iff_of_false (by rw [add?, hsome]; nofun) hfar

theorem value_add? {c : Decimal} (h : a.add? b = some c) : c.value = a.value + b.value := by
  obtain ⟨-, hnone⟩ | ⟨-, hsome⟩ := atLargerScale?_cases a b (· + ·)
  · rw [add?, hnone] at h
    cases h
  · rw [add?, hsome] at h
    obtain rfl := Option.some.inj h
    rw [value_eq_coefficientAt a (Int.le_max_left a.scale b.scale),
      value_eq_coefficientAt b (Int.le_max_right a.scale b.scale), ← add_mul, ← Int.cast_add]
    rfl

theorem sub?_eq_none_iff : a.sub? b = none ↔ a.isZero = false ∧ b.isZero = false ∧ a.TooFarApart b := by
  unfold sub?
  split
  next hb => simp [hb]
  next hb =>
    split
    next ha => simp [ha]
    next ha =>
      rw [Bool.not_eq_true] at ha hb
      obtain ⟨hfar, hnone⟩ | ⟨hfar, hsome⟩ := atLargerScale?_cases a b (· - ·)
      · exact iff_of_true hnone ⟨ha, hb, hfar⟩
      · exact iff_of_false (by rw [hsome]; nofun) fun h => hfar h.2.2

theorem value_sub? {c : Decimal} (h : a.sub? b = some c) : c.value = a.value - b.value := by
  unfold sub? at h
  split at h
  next hb =>
    obtain rfl := Option.some.inj h
    rw [(value_eq_zero_iff b).2 hb, sub_zero]
  next =>
    split at h
    next ha =>
      obtain rfl := Option.some.inj h
      rw [value_neg, (value_eq_zero_iff a).2 ha, zero_sub]
    next =>
      obtain ⟨-, hnone⟩ | ⟨-, hsome⟩ := atLargerScale?_cases a b (· - ·)
      · rw [hnone] at h
        cases h
      · rw [hsome] at h
        obtain rfl := Option.some.inj h
        rw [value_eq_coefficientAt a (Int.le_max_left a.scale b.scale),
          value_eq_coefficientAt b (Int.le_max_right a.scale b.scale), ← sub_mul, ← Int.cast_sub]
        rfl

theorem value_of_isOne (h : a.isOne = true) : a.value = 1 := by
  simp only [isOne, Bool.and_eq_true, decide_eq_true_eq, beq_iff_eq] at h
  obtain ⟨⟨hscale, -⟩, hcoefficient⟩ := h
  obtain ⟨n, hn⟩ := Int.eq_ofNat_of_zero_le hscale
  have hpow : ((Nat.pow 10 n : Nat) : ℚ) = 10 ^ n := Nat.cast_pow 10 n
  rw [value, hcoefficient, hn, zpow_neg, Int.toNat_natCast, zpow_natCast, Int.cast_natCast, hpow]
  exact mul_inv_cancel₀ (by positivity)

theorem scale?_eq_none_iff {n : Int} : scale? n = none ↔ fitsInto scaleBits n = false := by
  unfold scale?
  split
  next h => simp [h]
  next h => simp [h]

theorem eq_of_scale? {n scale : Int} (h : scale? n = some scale) : scale = n := by
  unfold scale? at h
  split at h
  · exact (Option.some.inj h).symm
  · cases h

theorem mul?_eq_none_iff :
    a.mul? b = none ↔ a.isOne = false ∧ b.isOne = false ∧ fitsInto scaleBits (a.scale + b.scale) = false := by
  unfold mul?
  split
  next ha => simp [ha]
  next ha =>
    split
    next hb => simp [hb]
    next hb =>
      rw [Bool.not_eq_true] at ha hb
      rw [Option.map_eq_none_iff, scale?_eq_none_iff, ha, hb]
      simp

theorem value_mul? {c : Decimal} (h : a.mul? b = some c) : c.value = a.value * b.value := by
  unfold mul? at h
  split at h
  next ha =>
    obtain rfl := Option.some.inj h
    rw [value_of_isOne a ha, one_mul]
  next =>
    split at h
    next hb =>
      obtain rfl := Option.some.inj h
      rw [value_of_isOne b hb, mul_one]
    next =>
      obtain ⟨scale, hscale, rfl⟩ := Option.map_eq_some_iff.1 h
      obtain rfl := eq_of_scale? hscale
      rw [value, value, value, neg_add, zpow_add₀ (by norm_num), Int.cast_mul]
      ring

/-- Whether the scale of a quotient leaves its bits, at first or with the decimal places that are added. -/
def QuotientLeavesScale : Prop :=
  fitsInto scaleBits (a.scale - b.scale) = false ∨
    a.coefficient ≠ b.coefficient ∧ ∃ h : 0 < a.coefficient.natAbs,
      fitsInto scaleBits (a.scale - b.scale + (quotient a.coefficient.natAbs b.coefficient.natAbs h).2) = false

theorem div?_eq_none_iff :
    a.div? b = none ↔ a.isZero = false ∧ b.isOne = false ∧ a.QuotientLeavesScale b := by
  unfold div? QuotientLeavesScale
  split
  next ha => simp [isZero, ha]
  next ha =>
    have hpos : 0 < a.coefficient.natAbs := Int.natAbs_pos.2 ha
    split
    next hb => simp [hb]
    next hb =>
      simp only [isZero, beq_eq_false_iff_ne, ne_eq, ha, not_false_eq_true, hb, true_and, exists_prop_of_true hpos]
      cases hscale : scale? (a.scale - b.scale) with
      | none => exact iff_of_true rfl (.inl (scale?_eq_none_iff.1 hscale))
      | some scale =>
        obtain rfl := eq_of_scale? hscale
        have hfits : fitsInto scaleBits (a.scale - b.scale) ≠ false := fun h => by
          rw [scale?_eq_none_iff.2 h] at hscale
          cases hscale
        by_cases heq : a.coefficient = b.coefficient
        · simp [heq, hfits]
        · simpa [heq, hfits, ← scale?_eq_none_iff] using Option.eq_none_iff_forall_ne_some.symm

end Decimal

/-! ## Numbers of any kind -/

namespace Number

/-- The value of a number that is not of a floating-point kind. -/
def value? : Number → Option ℚ
  | int n => some n.toInt
  | long n => some n.toInt
  | bigInt n => some n
  | decimal d => some d.value
  | float _ | double _ => none

/-- The value of an integer. -/
def integer? : Number → Option Int
  | int n => some n.toInt
  | long n => some n.toInt
  | bigInt n => some n
  | decimal _ | float _ | double _ => none

theorem value?_of_integer? {a : Number} {n : Int} (h : a.integer? = some n) : a.value? = some (n : ℚ) := by
  cases a <;> simp_all [integer?, value?]

end Number

end QueryTemplate
