import Mathlib
import QueryTemplate.Token.Lexer

/-!
# A zero behind the point

A decimal literal is read as the nearest number of 64 bits, and that depends on what the decimal is, not on how it is
written: with a zero behind the point a natural number is read as without (`decimalValue_zero`).

Numbers are divided by a power of ten as integers, with as many bits as there are in a number and at least one to spare,
and rounded then. If nothing is left over, more bits would make no difference (`rounded_shift`), so in each of the ways
in which a number can be read it is rounded from the same value (`nearest`). Small numbers are divided as numbers of 64
bits, which hold them exactly (`unpack_pack_nearest`).
-/

namespace QueryTemplate

namespace Binary64

open Float.Model Float.Model.UnpackedFloat

/-- The number of 64 bits nearest to `m · 2 ^ e`, if that has at least as many bits as such a number. -/
def rounded (m : Nat) (e : Int) : UnpackedFloat := roundWithAccuracy Format.binary64 .positive m e .exact

theorem targetExponent_eq (e : Int) : Format.binary64.targetExponent e = max (e - 53) (-1074) := by
  simp only [Format.targetExponent, Format.minExponent, Format.mantissaBits]
  norm_num

/-- The exponent of the last bit of a number of 64 bits near `m · 2 ^ e`. -/
def lastBit (m : Nat) (e : Int) : Int := Format.binary64.targetExponent (totalExponent m e)

theorem lastBit_eq (m : Nat) (e : Int) : lastBit m e = max (m.log2 + e - 52) (-1074) := by
  rw [lastBit, targetExponent_eq, totalExponent]
  omega

/-! ## Bits to spare -/

theorem shiftRight_succ (m : ExtendedMantissa) (k : Nat) : m >>> (k + 1) = m.shiftRightOne >>> k := by
  show (k + 1).repeat ExtendedMantissa.shiftRightOne m = k.repeat ExtendedMantissa.shiftRightOne m.shiftRightOne
  induction k with
  | zero => rfl
  | succ k ih => rw [Nat.repeat, ih, Nat.repeat]

theorem log2_shiftLeft {m : Nat} (hm : m ≠ 0) (k : Nat) : (m <<< k).log2 = m.log2 + k := by
  induction k with
  | zero => rfl
  | succ k ih =>
    have hk : m <<< k ≠ 0 := by simpa [Nat.shiftLeft_eq] using hm
    rw [Nat.shiftLeft_succ, Nat.log2_two_mul hk, ih, Nat.add_assoc]

theorem log2_mul_le {a b : Nat} (ha : a ≠ 0) (hb : b ≠ 0) : (a * b).log2 ≤ a.log2 + b.log2 + 1 := by
  refine Nat.le_of_lt_succ ((Nat.log2_lt (Nat.mul_ne_zero ha hb)).2 ?_)
  calc a * b < 2 ^ (a.log2 + 1) * 2 ^ (b.log2 + 1) := Nat.mul_lt_mul'' Nat.lt_log2_self Nat.lt_log2_self
    _ = 2 ^ (a.log2 + b.log2 + 1 + 1) := by rw [← pow_add]; congr 1; omega

variable {m n : Nat} {e : Int}

/-- One bit more, a zero, is shifted out again. -/
theorem rounded_double (hm : m ≠ 0) (he : e ≤ lastBit m e) : rounded (2 * m) (e - 1) = rounded m e := by
  have htotal : totalExponent (2 * m) (e - 1) = totalExponent m e := by
    unfold totalExponent
    rw [Nat.log2_two_mul hm]
    push_cast
    omega
  have hshift : shiftToTargetExponent Format.binary64 (2 * m) (e - 1) .exact =
      shiftToTargetExponent Format.binary64 m e .exact := by
    simp only [shiftToTargetExponent, shiftToExponent, htotal]
    obtain ⟨k, hk⟩ : ∃ k : Nat, lastBit m e = e + k := ⟨(lastBit m e - e).toNat, by omega⟩
    unfold lastBit at hk
    rw [hk, show (e + k - (e - 1)).toNat = k + 1 by omega, show (e + k - e).toNat = k by omega]
    have hone : (ExtendedMantissa.ofMantissaAndAccuracy (2 * m) .exact).shiftRightOne =
        ExtendedMantissa.ofMantissaAndAccuracy m .exact := by
      simp [ExtendedMantissa.ofMantissaAndAccuracy, ExtendedMantissa.shiftRightOne]
    simp only [shiftRight_succ, hone, Prod.mk.injEq, true_and]
    push_cast
    omega
  unfold rounded roundWithAccuracy
  rw [hshift]

theorem rounded_shift (hm : m ≠ 0) (he : e ≤ lastBit m e) (k : Nat) : rounded (m <<< k) (e - k) = rounded m e := by
  induction k with
  | zero => simp
  | succ k ih =>
    have hk : m <<< k ≠ 0 := by simpa [Nat.shiftLeft_eq] using hm
    have hlast : lastBit (m <<< k) (e - k) = lastBit m e := by
      rw [lastBit_eq, lastBit_eq, log2_shiftLeft hm]
      push_cast
      omega
    rw [Nat.shiftLeft_succ, ← ih, ← rounded_double hk (by omega)]
    push_cast
    congr 1
    omega

/-- The number of 64 bits nearest to a natural number. -/
def nearest (n : Nat) : UnpackedFloat := rounded (n <<< 53) (-53)

theorem rounded_eq_nearest (hn : n ≠ 0) {k : Nat} (hk : 52 ≤ n.log2 + k) : rounded (n <<< k) (-k) = nearest n := by
  have hleast : ∀ j, 52 ≤ n.log2 + j →
      rounded (n <<< j) (-j) = rounded (n <<< (52 - n.log2)) (-(52 - n.log2 : Nat)) := by
    intro j hj
    have hm : n <<< (52 - n.log2) ≠ 0 := by simpa [Nat.shiftLeft_eq] using hn
    have hlast : -((52 - n.log2 : Nat) : Int) ≤ lastBit (n <<< (52 - n.log2)) (-(52 - n.log2 : Nat)) := by
      rw [lastBit_eq, log2_shiftLeft hn]
      omega
    rw [← rounded_shift hm hlast (j - (52 - n.log2)), ← Nat.shiftLeft_add]
    congr 2 <;> omega
  rw [nearest, hleast k hk]
  exact (hleast 53 (Nat.le_add_left_of_le (by decide))).symm

/-! ## Numbers that fit -/

/-- A natural number below `2 ^ 53` without its bits above the point: `2 ^ 52 ≤ mantissa < 2 ^ 53`. -/
theorem mantissa_bounds (hn : n ≠ 0) (h : n < 2 ^ 53) :
    n.log2 ≤ 52 ∧ 2 ^ 52 ≤ n <<< (52 - n.log2) ∧ n <<< (52 - n.log2) < 2 ^ 53 := by
  have hlog : n.log2 ≤ 52 := Nat.le_of_lt_succ ((Nat.log2_lt hn).2 h)
  have hshift : n <<< (52 - n.log2) ≠ 0 := by simpa [Nat.shiftLeft_eq] using hn
  have hbits : (n <<< (52 - n.log2)).log2 = 52 := by
    rw [log2_shiftLeft hn]
    omega
  exact ⟨hlog, (Nat.le_log2 hshift).1 (Nat.le_of_eq hbits.symm), (Nat.log2_lt hshift).1 (by omega)⟩

/-- A number of 53 bits is not rounded. -/
theorem rounded_of_log2 (hm : m ≠ 0) (hlog : m.log2 = 52) (he : -1074 ≤ e) :
    rounded m e = .finite .positive m e (Nat.pos_of_ne_zero hm) := by
  have hlast : Format.binary64.targetExponent (totalExponent m e) = e := by
    show lastBit m e = e
    rw [lastBit_eq, hlog]
    omega
  have hshift : shiftToTargetExponent Format.binary64 m e .exact = (⟨m, false, false⟩, e) := by
    simp only [shiftToTargetExponent, shiftToExponent, hlast, Int.sub_self]
    exact Prod.ext rfl (Int.add_zero e)
  have hround : (ExtendedMantissa.mk m false false).roundedMantissa = m := rfl
  simp only [rounded, roundWithAccuracy, hshift, hround, dif_neg hm]

theorem nearest_of_lt (hn : n ≠ 0) (h : n < 2 ^ 53) : ∃ hm, nearest n =
    .finite .positive (n <<< (52 - n.log2)) (-(52 - n.log2 : Nat)) hm := by
  obtain ⟨hlog, -, -⟩ := mantissa_bounds hn h
  have hm : n <<< (52 - n.log2) ≠ 0 := by simpa [Nat.shiftLeft_eq] using hn
  refine ⟨Nat.pos_of_ne_zero hm, ?_⟩
  rw [← rounded_eq_nearest hn (k := 52 - n.log2) (by omega), rounded_of_log2 hm]
  · rw [log2_shiftLeft hn]
    omega
  · omega

theorem unpackSign_packComponents (format : Float.Model.Format) (sign : Sign) (exponent : BitVec format.exponentBits)
    (mantissa : BitVec format.mantissaBitsWithoutImplicit) :
    unpackSign (packComponents format sign exponent mantissa) = sign.toBitVec := by
  apply BitVec.eq_of_getLsbD_eq
  intro i hi
  obtain rfl : i = 0 := by omega
  simp [unpackSign, packComponents, BitVec.getLsbD_append, BitVec.getElem_append]

/-- The bit before the fraction is not stored, and put back. -/
theorem toNat_append_fraction (hlow : 2 ^ 52 ≤ m) (hhigh : m < 2 ^ 53) : (1#1 ++ BitVec.ofNat 52 m).toNat = m := by
  have hfraction : (BitVec.ofNat 52 m).toNat = m - 2 ^ 52 := by
    rw [BitVec.toNat_ofNat]
    omega
  have hone : (1#1).toNat <<< 52 = 2 ^ 52 := by decide
  rw [BitVec.toNat_append, ← Nat.shiftLeft_add_eq_or_of_lt (BitVec.isLt _), hfraction, hone]
  omega

theorem unpack_pack_of_bounds {sign : Sign} {hm : 0 < m} (hlow : 2 ^ 52 ≤ m) (hhigh : m < 2 ^ 53) (he : -1074 < e)
    (he' : e ≤ 0) : (Float.Model.pack (.finite sign m e hm)).unpack = .finite sign m e hm := by
  have hlog : m.log2 + 1 = Format.binary64.mantissaBits :=
    congrArg (· + 1) ((Nat.log2_eq_iff (Nat.ne_of_gt hm)).2 ⟨hlow, hhigh⟩)
  obtain ⟨b, hb⟩ : ∃ b : Nat, (b : Int) = e + 1075 := ⟨(e + 1075).toNat, by omega⟩
  have hbiased :
      (e + (Format.binary64.exponentBias : Int) + (Format.binary64.mantissaBitsWithoutImplicit : Int)).toNat = b := by
    simp only [Format.exponentBias]
    norm_num
    omega
  have hexponent : (BitVec.ofNat 11 b).toNat = b := by
    rw [BitVec.toNat_ofNat]
    omega
  have hzero : BitVec.ofNat 11 b ≠ 0#11 := fun h => by
    rw [h] at hexponent
    change 0 = b at hexponent
    omega
  have hones : BitVec.ofNat 11 b ≠ -1#11 := fun h => by
    rw [h] at hexponent
    change 2047 = b at hexponent
    omega
  have hsign : Sign.ofBitVec sign.toBitVec = sign := by cases sign <;> rfl
  have hpack : UnpackedFloat.pack Format.binary64 (.finite sign m e hm) =
      packComponents Format.binary64 sign (BitVec.ofNat 11 b) (BitVec.ofNat 52 m) := by
    simp only [UnpackedFloat.pack, hbiased, hlog]
    rw [if_neg (by norm_num; omega), if_pos trivial]
  show UnpackedFloat.unpack Format.binary64 (UnpackedFloat.pack Format.binary64 (.finite sign m e hm)) = _
  rw [hpack]
  simp only [UnpackedFloat.unpack, unpackMantissa_packComponents, unpackExponent_packComponents,
    unpackSign_packComponents, hsign]
  rw [if_neg hones, if_neg hzero]
  simp only [UnpackedFloat.finite.injEq]
  refine ⟨trivial, toNat_append_fraction hlow hhigh, ?_⟩
  rw [hexponent, hb]
  simp only [Format.exponentBias]
  norm_num

theorem unpack_pack_nearest (hn : n ≠ 0) (h : n < 2 ^ 53) : (Float.Model.pack (nearest n)).unpack = nearest n := by
  obtain ⟨hm, hnearest⟩ := nearest_of_lt hn h
  obtain ⟨hlog, hlow, hhigh⟩ := mantissa_bounds hn h
  rw [hnearest]
  exact unpack_pack_of_bounds hlow hhigh (by omega) (by omega)

/-! ## Quotients -/

/-- A quotient in which nothing is left over. -/
theorem div_of_eq_mul {m₁ m₂ q k : Nat} {e₁ e₂ : Int} {h₁ : 0 < m₁} {h₂ : 0 < m₂}
    (hk : min (e₁ - e₂) (Format.binary64.targetExponent (totalExponent m₁ e₁ - totalExponent m₂ e₂)) = e₁ - e₂ - k)
    (hq : m₁ <<< k = q * m₂) :
    UnpackedFloat.div Format.binary64 (.finite .positive m₁ e₁ h₁) (.finite .positive m₂ e₂ h₂) =
      rounded q (e₁ - e₂ - k) := by
  have hshift : (e₁ - e₂ - (e₁ - e₂ - k)).toNat = k := by omega
  simp only [UnpackedFloat.div, divCore, hk, hshift, hq, Nat.mul_div_cancel q h₂, Nat.mul_mod_left]
  rfl

/-- The quotient of numbers that fit, where nothing is left over. -/
theorem div_nearest {b : Nat} (hb : b ≠ 0) (hn : n ≠ 0) (h : b * n < 2 ^ 53) :
    UnpackedFloat.div Format.binary64 (nearest (b * n)) (nearest b) = nearest n := by
  have ha : b * n ≠ 0 := Nat.mul_ne_zero hb hn
  have hbfits : b < 2 ^ 53 := Nat.lt_of_le_of_lt (Nat.le_mul_of_pos_right b (Nat.pos_of_ne_zero hn)) h
  obtain ⟨hma, hnearest⟩ := nearest_of_lt ha h
  obtain ⟨hmb, hnearest'⟩ := nearest_of_lt hb hbfits
  obtain ⟨hlog, -, -⟩ := mantissa_bounds ha h
  obtain ⟨hlog', -, -⟩ := mantissa_bounds hb hbfits
  have hproduct := log2_mul_le hb hn
  have hgrows : b.log2 ≤ (b * n).log2 := (Nat.le_log2 ha).2
    ((Nat.log2_self_le hb).trans (Nat.le_mul_of_pos_right b (Nat.pos_of_ne_zero hn)))
  have hbits : (b * n) <<< (52 - (b * n).log2) <<< 53 = n <<< (53 + b.log2 - (b * n).log2) * b <<< (52 - b.log2) := by
    simp only [Nat.shiftLeft_eq]
    have hshift : 52 - (b * n).log2 + 53 = 53 + b.log2 - (b * n).log2 + (52 - b.log2) := by omega
    rw [mul_assoc, ← pow_add, hshift, pow_add]
    ring
  have hexponent : -((52 - (b * n).log2 : Nat) : Int) - -((52 - b.log2 : Nat) : Int) - (53 : Nat) =
      -((53 + b.log2 - (b * n).log2 : Nat) : Int) := by omega
  rw [hnearest, hnearest', div_of_eq_mul ?_ hbits, hexponent, rounded_eq_nearest hn (by omega)]
  simp only [totalExponent, log2_shiftLeft ha, log2_shiftLeft hb, targetExponent_eq]
  omega

/-! ## Reading -/

/-- Natural numbers that fit are exact. -/
theorem toFloat_toUInt64 (hn : n ≠ 0) (h : n < 2 ^ 53) : n.toUInt64.toFloat = .ofModel (.pack (nearest n)) := by
  obtain ⟨hlog, -, -⟩ := mantissa_bounds hn h
  have hnat : n.toUInt64.toNat = n := by
    show n % 2 ^ 64 = n
    omega
  have hpositive : compare (n : Int) 0 = .gt := Int.compare_eq_gt.2 (by omega)
  have htarget : Format.binary64.targetExponent (totalExponent n 0) = -((52 - n.log2 : Nat) : Int) := by
    show lastBit n 0 = _
    rw [lastBit_eq]
    omega
  have hunpacked : UnpackedFloat.ofUInt64 Format.binary64 n.toUInt64 = nearest n := by
    rw [← rounded_eq_nearest hn (k := 52 - n.log2) (by omega)]
    simp only [UnpackedFloat.ofUInt64, UnpackedFloat.ofNat, UnpackedFloat.ofInt, UnpackedFloat.normalize, hnat,
      hpositive, UnpackedFloat.round, Int.toNat_natCast, htarget, decreaseExponent]
    rw [show (0 - -((52 - n.log2 : Nat) : Int)).toNat = 52 - n.log2 by omega, Int.zero_sub]
    rfl
  show Float.ofModel (.pack (UnpackedFloat.ofUInt64 Format.binary64 n.toUInt64)) = _
  rw [hunpacked]

theorem div_pack_nearest {b : Nat} (hb : b ≠ 0) (hn : n ≠ 0) (h : b * n < 2 ^ 53) :
    Float.ofModel (.pack (nearest (b * n))) / Float.ofModel (.pack (nearest b)) = .ofModel (.pack (nearest n)) := by
  have hbfits : b < 2 ^ 53 := Nat.lt_of_le_of_lt (Nat.le_mul_of_pos_right b (Nat.pos_of_ne_zero hn)) h
  show Float.ofModel (.pack (UnpackedFloat.div Format.binary64 (Float.Model.pack (nearest (b * n))).unpack
    (Float.Model.pack (nearest b)).unpack)) = _
  rw [unpack_pack_nearest (Nat.mul_ne_zero hb hn) h, unpack_pack_nearest hb hbfits, div_nearest hb hn h]

/-- Numbers that do not fit are rounded as integers, -/
theorem ofScientific_zero (hn : n ≠ 0) : UnpackedFloat.ofScientific Format.binary64 n 0 = nearest n := by
  unfold UnpackedFloat.ofScientific
  rw [dif_neg hn, if_neg (by decide), if_neg (by simp), if_pos (Int.le_refl 0)]
  show rounded (n <<< 53 * 1) (-53 + 0) = nearest n
  rw [Nat.mul_one]
  rfl

/-- and those with a zero behind the point are divided by ten before. -/
theorem ofScientific_neg_one (hn : n ≠ 0) :
    UnpackedFloat.ofScientific Format.binary64 (10 * n) (-1) = nearest n := by
  have ha : 10 * n ≠ 0 := by omega
  have hproduct := log2_mul_le (a := 10) (by decide) hn
  have hten : Nat.log2 10 = 3 := by decide
  have hleast : (1 : Int) ≤ 2 ^ Format.binary64.exponentBits := by decide
  have hbits : (10 * n) <<< (56 - (10 * n).log2) = n <<< (56 - (10 * n).log2) * 10 := by
    simp only [Nat.shiftLeft_eq]
    ring
  unfold UnpackedFloat.ofScientific
  rw [dif_neg ha, if_neg (by decide), if_neg (by omega), if_neg (by decide)]
  show UnpackedFloat.div Format.binary64 (.finite .positive (10 * n) 0 _) (.finite .positive 10 0 _) = nearest n
  rw [div_of_eq_mul (k := 56 - (10 * n).log2) ?_ hbits, ← rounded_eq_nearest hn (k := 56 - (10 * n).log2) (by omega)]
  · congr 1
    omega
  · simp only [totalExponent, targetExponent_eq]
    rw [hten]
    omega

theorem powersOfTen_zero : Float.exactlyRepresentablePowersOfTen[0] = .ofModel (.pack (nearest 1)) := by decide +kernel

theorem powersOfTen_one : Float.exactlyRepresentablePowersOfTen[1] = .ofModel (.pack (nearest 10)) := by decide +kernel

theorem float_ofScientific_zero (hn : n ≠ 0) : Float.ofScientific n true 0 = .ofModel (.pack (nearest n)) := by
  unfold Float.ofScientific
  split
  next h =>
    rw [if_pos rfl, toFloat_toUInt64 hn h.1, powersOfTen_zero]
    simpa using div_pack_nearest (b := 1) (by decide) hn (by simpa using h.1)
  next =>
    exact congrArg (fun x => Float.ofModel (.pack x)) (ofScientific_zero hn)

theorem float_ofScientific_one (hn : n ≠ 0) : Float.ofScientific (10 * n) true 1 = .ofModel (.pack (nearest n)) := by
  unfold Float.ofScientific
  split
  next h =>
    rw [if_pos rfl, toFloat_toUInt64 (by omega) h.1, powersOfTen_one, div_pack_nearest (by decide) hn h.1]
  next =>
    exact congrArg (fun x => Float.ofModel (.pack x)) (ofScientific_neg_one hn)

end Binary64

open Binary64

/-- A zero behind the point changes nothing. -/
theorem decimalValue_zero (whole : List Char) : decimalValue whole ['0'] = decimalValue whole [] := by
  have hten : digitsValue (whole ++ ['0']) = 10 * digitsValue whole := by
    simp [digitsValue]
  simp only [decimalValue, hten, List.append_nil, List.length_cons, List.length_nil, Nat.zero_add]
  by_cases hn : digitsValue whole = 0
  · rw [hn]
    decide +kernel
  · rw [float_ofScientific_one hn, float_ofScientific_zero hn]

end QueryTemplate
