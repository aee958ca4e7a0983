/-!
# Decimal digits

What a run of decimal digits denotes, and the digits of a natural number. A number is split in the middle of its
digits again and again, so that numbers with many digits are divided only a few times; `naturalDigits_eq_toDigits`
says that the digits are those of repeated division by ten.
-/

namespace QueryTemplate

/-- The number that decimal digits denote. -/
def digitsValue (digits : List Char) : Nat :=
  digits.foldl (fun n d => 10 * n + (d.toNat - '0'.toNat)) 0

/-- The last `2 ^ k` digits of a number, with leading zeros, in front of `rest`. -/
def lastDigits (k n : Nat) (rest : List Char) : List Char :=
  match k with
  | 0 => (n % 10).digitChar :: rest
  | k + 1 =>
    let middle := Nat.pow 10 (Nat.pow 2 k)
    lastDigits k (n / middle) (lastDigits k (n % middle) rest)

/-- The digits of a number that has at most `2 ^ k` of them. -/
def digitsWithin (k n : Nat) : List Char :=
  match k with
  | 0 => [n.digitChar]
  | k + 1 =>
    let middle := Nat.pow 10 (Nat.pow 2 k)
    if n < middle then digitsWithin k n
    else digitsWithin k (n / middle) ++ lastDigits k (n % middle) []

/-- A number of halvings that leaves single digits: a number has at most `2 ^ halvings n` digits. -/
def halvings (n : Nat) : Nat := Nat.log2 (Nat.log2 n / 3 + 1) + 1

/-- The digits of a number; zero has one. -/
def naturalDigits (n : Nat) : List Char := digitsWithin (halvings n) n

/-- How many digits a number has; zero has one. -/
def digitCount (n : Nat) : Nat := (naturalDigits n).length

/-- A number in decimal digits. -/
def naturalText (n : Nat) : String := String.ofList (naturalDigits n)

/-- An integer in decimal digits, with a minus sign if it is negative. -/
def integerText (n : Int) : String :=
  if n < 0 then "-" ++ naturalText n.natAbs else naturalText n.natAbs

/-- The last `count` digits of a number, with leading zeros. -/
def paddedDigits (count n : Nat) : List Char :=
  match count with
  | 0 => []
  | count + 1 => paddedDigits count (n / 10) ++ [(n % 10).digitChar]

theorem paddedDigits_add (a b n : Nat) :
    paddedDigits (a + b) n = paddedDigits a (n / Nat.pow 10 b) ++ paddedDigits b n := by
  induction b generalizing n with
  | zero => simp [paddedDigits]
  | succ b ih =>
    have h : n / 10 / Nat.pow 10 b = n / Nat.pow 10 (b + 1) := by
      rw [Nat.div_div_eq_div_mul, Nat.mul_comm]
      rfl
    rw [← Nat.add_assoc, paddedDigits, ih, h, paddedDigits, List.append_assoc]

theorem paddedDigits_mod (b n : Nat) : paddedDigits b (n % Nat.pow 10 b) = paddedDigits b n := by
  induction b generalizing n with
  | zero => rfl
  | succ b ih =>
    have hpow : Nat.pow 10 (b + 1) = 10 * Nat.pow 10 b := Nat.mul_comm ..
    have hdiv : n % Nat.pow 10 (b + 1) / 10 = n / 10 % Nat.pow 10 b := by
      rw [hpow, Nat.mod_mul_right_div_self]
    have hmod : n % Nat.pow 10 (b + 1) % 10 = n % 10 := by
      rw [hpow, Nat.mod_mul_right_mod]
    rw [paddedDigits, hdiv, hmod, ih, paddedDigits]

theorem lastDigits_eq_paddedDigits (k n : Nat) (rest : List Char) :
    lastDigits k n rest = paddedDigits (Nat.pow 2 k) n ++ rest := by
  induction k generalizing n rest with
  | zero => simp [lastDigits, paddedDigits]
  | succ k ih =>
    have hpow : Nat.pow 2 (k + 1) = Nat.pow 2 k + Nat.pow 2 k := Nat.mul_two _
    rw [lastDigits, ih, ih, paddedDigits_mod, hpow, paddedDigits_add, List.append_assoc]

/-- The digits of a number are those in front of its last `m`, and its last `m`. -/
theorem toDigits_eq_append_paddedDigits {m n : Nat} (h : Nat.pow 10 m ≤ n) :
    Nat.toDigits 10 n = Nat.toDigits 10 (n / Nat.pow 10 m) ++ paddedDigits m n := by
  induction m generalizing n with
  | zero => simp [paddedDigits]
  | succ m ih =>
    have hpos : 0 < Nat.pow 10 m := Nat.pow_pos (by decide)
    have hpow : Nat.pow 10 (m + 1) = 10 * Nat.pow 10 m := Nat.mul_comm ..
    have hle : Nat.pow 10 m ≤ n / 10 := by
      rw [Nat.le_div_iff_mul_le (by decide)]
      omega
    rw [Nat.toDigits_of_base_le (by decide) (by omega), ih hle, Nat.div_div_eq_div_mul, ← hpow, paddedDigits,
      List.append_assoc]

theorem digitsWithin_eq_toDigits {k n : Nat} (h : n < Nat.pow 10 (Nat.pow 2 k)) :
    digitsWithin k n = Nat.toDigits 10 n := by
  induction k generalizing n with
  | zero => rw [digitsWithin, Nat.toDigits_of_lt_base h]
  | succ k ih =>
    have hsquare : Nat.pow 10 (Nat.pow 2 (k + 1)) = Nat.pow 10 (Nat.pow 2 k) * Nat.pow 10 (Nat.pow 2 k) := by
      rw [show Nat.pow 2 (k + 1) = Nat.pow 2 k + Nat.pow 2 k from Nat.mul_two _]
      exact Nat.pow_add ..
    rw [digitsWithin]
    split
    · next hlt => exact ih hlt
    · next hge =>
      rw [ih (Nat.div_lt_of_lt_mul (hsquare ▸ h)), lastDigits_eq_paddedDigits, paddedDigits_mod, List.append_nil,
        ← toDigits_eq_append_paddedDigits (Nat.le_of_not_lt hge)]

theorem lt_pow_halvings (n : Nat) : n < Nat.pow 10 (Nat.pow 2 (halvings n)) := by
  have hbits : n < Nat.pow 2 (Nat.log2 n + 1) := Nat.lt_log2_self
  have hthird : Nat.log2 n + 1 ≤ 3 * (Nat.log2 n / 3 + 1) := by omega
  have hcount : Nat.log2 n / 3 + 1 ≤ Nat.pow 2 (halvings n) := Nat.le_of_lt Nat.lt_log2_self
  calc n < Nat.pow 2 (Nat.log2 n + 1) := hbits
    _ ≤ Nat.pow 2 (3 * (Nat.log2 n / 3 + 1)) := Nat.pow_le_pow_right (by decide) hthird
    _ = Nat.pow 8 (Nat.log2 n / 3 + 1) := Nat.pow_mul ..
    _ ≤ Nat.pow 10 (Nat.log2 n / 3 + 1) := Nat.pow_le_pow_left (by decide) _
    _ ≤ Nat.pow 10 (Nat.pow 2 (halvings n)) := Nat.pow_le_pow_right (by decide) hcount

theorem naturalDigits_eq_toDigits (n : Nat) : naturalDigits n = Nat.toDigits 10 n :=
  digitsWithin_eq_toDigits (lt_pow_halvings n)

theorem naturalText_eq_toString (n : Nat) : naturalText n = toString n := by
  rw [naturalText, naturalDigits_eq_toDigits, Nat.toString_eq_ofList_toDigits]

theorem integerText_eq_toString (n : Int) : integerText n = toString n := by
  rw [integerText, naturalText_eq_toString]
  cases n with
  | ofNat n => rfl
  | negSucc n => exact if_pos (Int.negSucc_lt_zero n)

/-- A number has at most `count` digits exactly if it lies below that power of ten. -/
theorem digitCount_le_iff {count n : Nat} (h : 0 < count) : digitCount n ≤ count ↔ n < Nat.pow 10 count := by
  rw [digitCount, naturalDigits_eq_toDigits]
  exact Nat.length_toDigits_le_iff (by decide) h

end QueryTemplate
