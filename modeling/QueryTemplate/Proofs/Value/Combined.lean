import QueryTemplate.Proofs.Value.Exact

/-!
# Operators on numbers

Two numbers are taken to their common kind, whose arithmetic does the rest. So what is exact there is exact for the
operands, whatever their kinds, and what fails there fails for no other reason (`Number.combinedExactly`). A number is
not taken to the common kind if that is decimal and the number is not finite (`BinaryOp.apply_number_cases`).

Decimals have no result where their scales leave sixty-four bits. The operators panic then, and in no other case
(`apply_panic_iff`), where for integers they would report an overflow (`product_of_tiny_decimals`).
-/

namespace QueryTemplate

open NumericKind

variable {α : Type} {A : Arithmetic α} {kind : NumericKind} {op : BinaryOp} {a b : Number}

/-! ## Operands taken to a kind -/

namespace Arithmetic

variable {x y : α}

theorem convert_of_some (h : A.convert? a = some x) : A.convert (.number a) = .ok x := by
  have hbind : (Value.number a).number?.bind A.convert? = some x := h
  rw [convert, hbind]

theorem convert_of_none (h : A.convert? a = none) :
    A.convert (.number a) = .error (.numericConversion a.display A.kind) := by
  have hbind : (Value.number a).number?.bind A.convert? = none := h
  rw [convert, hbind]
  rfl

theorem apply_of_some (ha : A.convert? a = some x) (hb : A.convert? b = some y) :
    A.apply op (.number a) (.number b) = A.operate op x y := by
  rw [apply, convert_of_some ha, convert_of_some hb]
  rfl

theorem negate_of_some (ha : A.convert? a = some x) :
    A.negate (.number a) = (A.neg x).map (Value.number ∘ A.wrap) := by
  rw [negate, convert_of_some ha]
  show (A.neg x >>= fun r => pure (Value.number (A.wrap r))) = _
  cases A.neg x with
  | ok r => rfl
  | error f => rfl

/-- A number found by an arithmetic is a number of its kind. -/
theorem Exact.computes {value : α → ℚ} {panics : BinaryOp → α → α → Prop} {computation : Computation} {z : ℚ} {P : Prop}
    {r : Except EvalFault α} (hexact : A.Exact value panics) (hA : A.Implements kind)
    (h : Finds (value · = ·) A.kind computation z P r) :
    kind.Computes computation z P (r.map (Value.number ∘ A.wrap)) := by
  obtain rfl := hA.kind_eq
  exact h.map fun x hx => ⟨A.wrap x, rfl, hA.wrap_kind x, (hexact.wrap x).trans (congrArg some hx)⟩

end Arithmetic

/-- Whether the operator computes a number. -/
def BinaryOp.isArithmetic : BinaryOp → Bool
  | add | sub | mul | div => true
  | eq | ne | lt | le | gt | ge => false

/-- The arithmetic operators and those that order work with numbers in their common kind. -/
theorem BinaryOp.apply_number (hop : op.isArithmetic = true ∨ op.isOrdering = true) (a b : Number) :
    op.apply (.number a) (.number b) = (promote a.kind b.kind).apply op (.number a) (.number b) := by
  cases op with
  | eq | ne => simp [isArithmetic, isOrdering] at hop
  | add | sub | mul | div | lt | le | gt | ge => rfl

/-- Numbers with values have operands in the exact arithmetic of their common kind. -/
theorem Number.exists_operands {x y : ℚ} (ha : a.value? = some x) (hb : b.value? = some y) :
    ∃ (α : Type) (A : Arithmetic α) (value : α → ℚ) (panics : BinaryOp → α → α → Prop) (u v : α),
      A.Implements (promote a.kind b.kind) ∧ A.Exact value panics ∧ value u = x ∧ value v = y ∧
        (∀ op, panics op u v ↔ (promote a.kind b.kind).Panics op a b) ∧
        ∀ op : BinaryOp, op.isArithmetic = true ∨ op.isOrdering = true →
          op.apply (.number a) (.number b) = A.operate op u v := by
  obtain ⟨α, A, value, panics, hA, hexact⟩ := ((isExact_kind ha).promote (isExact_kind hb)).exists_exact
  obtain ⟨u, hu, hux⟩ := hexact.convert a x (hA.kind_eq ▸ covers_promote_left _ _) ha
  obtain ⟨v, hv, hvy⟩ := hexact.convert b y (hA.kind_eq ▸ covers_promote_right _ _) hb
  refine ⟨α, A, value, panics, u, v, hA, hexact, hux, hvy, fun op => ?_, fun op hop => ?_⟩
  · rw [← hA.kind_eq]
    exact hexact.panics_iff op a b u v hu hv
  · rw [op.apply_number hop, hA.apply_eq, Arithmetic.apply_of_some hu hv]

/-! ## Bounds -/

/-- A quotient overflows just where the least integer is divided by minus one. -/
theorem fitsInto_tdiv_iff {bits : Nat} {n m : Int} (hn : fitsInto bits n = true) (hm : m ≠ 0) :
    fitsInto bits (n.tdiv m) = true ↔ ¬(m = -1 ∧ n = -Nat.pow 2 (bits - 1)) := by
  rw [fitsInto_iff] at hn ⊢
  by_cases hneg : m = -1
  · subst hneg
    rw [Int.tdiv_neg, Int.tdiv_one]
    omega
  refine iff_of_true ?_ fun h => hneg h.1
  by_cases hone : m = 1
  · rwa [hone, Int.tdiv_one]
  have hquotient : (n.tdiv m).natAbs ≤ n.natAbs / 2 := by
    rw [Int.natAbs_tdiv]
    exact Nat.div_le_div_left (by omega) (by decide)
  omega

theorem fitsInto_neg_iff {bits : Nat} {n : Int} (hn : fitsInto bits n = true) :
    fitsInto bits (-n) = true ↔ n ≠ -Nat.pow 2 (bits - 1) := by
  rw [← Int.tdiv_one (-n), Int.neg_tdiv, ← Int.tdiv_neg, fitsInto_tdiv_iff hn (by decide), eq_self, true_and]

/-- The values of integers are held by every kind that covers theirs. -/
theorem Number.holds_of_integer? {n : Int} (h : a.integer? = some n) (hcovers : kind.Covers a.kind) : kind.Holds n := by
  cases kind with
  | float | double | bigInt | decimal => trivial
  | int =>
    cases a with
    | int k =>
      obtain rfl := Option.some.inj h
      exact holds_int_iff.2 (fitsInto_iff.2 ⟨k.le_toInt, k.toInt_lt⟩)
    | long | float | double | bigInt | decimal => exact absurd hcovers (of_decide_eq_false rfl)
  | long =>
    cases a with
    | int k =>
      obtain rfl := Option.some.inj h
      rw [← k.toInt_toInt64]
      exact holds_long_iff.2 (fitsInto_iff.2 ⟨k.toInt64.le_toInt, k.toInt64.toInt_lt⟩)
    | long k =>
      obtain rfl := Option.some.inj h
      exact holds_long_iff.2 (fitsInto_iff.2 ⟨k.le_toInt, k.toInt_lt⟩)
    | float | double | bigInt | decimal => exact absurd hcovers (of_decide_eq_false rfl)

/-! ## Exact results -/

section Results

variable {x y : ℚ} {n m : Int}

theorem computes_sum (ha : a.value? = some x) (hb : b.value? = some y) :
    (promote a.kind b.kind).Computes .addition (x + y) ((promote a.kind b.kind).Panics .add a b)
      (BinaryOp.add.apply (.number a) (.number b)) := by
  obtain ⟨α, A, value, panics, u, v, hA, hexact, rfl, rfl, hpanics, happly⟩ := Number.exists_operands ha hb
  rw [happly .add (.inl rfl)]
  exact hexact.computes hA ((hexact.add u v).congr (hpanics .add))

theorem computes_difference (ha : a.value? = some x) (hb : b.value? = some y) :
    (promote a.kind b.kind).Computes .subtraction (x - y) ((promote a.kind b.kind).Panics .sub a b)
      (BinaryOp.sub.apply (.number a) (.number b)) := by
  obtain ⟨α, A, value, panics, u, v, hA, hexact, rfl, rfl, hpanics, happly⟩ := Number.exists_operands ha hb
  rw [happly .sub (.inl rfl)]
  exact hexact.computes hA ((hexact.sub u v).congr (hpanics .sub))

theorem computes_product (ha : a.value? = some x) (hb : b.value? = some y) :
    (promote a.kind b.kind).Computes .multiplication (x * y) ((promote a.kind b.kind).Panics .mul a b)
      (BinaryOp.mul.apply (.number a) (.number b)) := by
  obtain ⟨α, A, value, panics, u, v, hA, hexact, rfl, rfl, hpanics, happly⟩ := Number.exists_operands ha hb
  rw [happly .mul (.inl rfl)]
  exact hexact.computes hA ((hexact.mul u v).congr (hpanics .mul))

/-- Integers do not meet as decimals. -/
theorem promote_ne_decimal (ha : a.integer? = some n) (hb : b.integer? = some m) :
    promote a.kind b.kind ≠ .decimal := by
  cases a with
  | float | double | decimal => cases ha
  | int | long | bigInt =>
    cases b with
    | float | double | decimal => cases hb
    | int | long | bigInt => nofun

theorem computes_quotient (ha : a.integer? = some n) (hb : b.integer? = some m) (hm : m ≠ 0) :
    (promote a.kind b.kind).Computes .division (n.tdiv m : Int) False (BinaryOp.div.apply (.number a) (.number b)) := by
  obtain ⟨α, A, value, panics, u, v, hA, hexact, hu, hv, -, happly⟩ :=
    Number.exists_operands (Number.value?_of_integer? ha) (Number.value?_of_integer? hb)
  rw [happly .div (.inl rfl)]
  exact hexact.computes hA (hexact.div (hA.kind_eq ▸ promote_ne_decimal ha hb) u v n m hu hv hm)

theorem computes_negative (ha : a.value? = some x) :
    a.kind.Computes .negation (-x) False (UnaryOp.neg.apply (.number a)) := by
  obtain ⟨α, A, value, panics, hA, hexact⟩ := (Number.isExact_kind ha).exists_exact
  obtain ⟨u, hu, rfl⟩ := hexact.convert a x (hA.kind_eq ▸ covers_self _) ha
  show a.kind.Computes .negation _ _ (a.kind.negate (.number a))
  rw [hA.negate_eq, Arithmetic.negate_of_some hu]
  exact hexact.computes hA (hexact.neg u)

end Results

/-! ## Faults -/

/-- The operators divide by zero just where the divisor is zero. -/
theorem apply_divisionByZero_iff {x y : ℚ} (op : BinaryOp) (ha : a.value? = some x) (hb : b.value? = some y) :
    op.apply (.number a) (.number b) = .error .divisionByZero ↔ op = .div ∧ y = 0 := by
  obtain ⟨α, A, value, panics, u, v, hA, hexact, -, rfl, -, happly⟩ := Number.exists_operands ha hb
  have hdiv : BinaryOp.div.apply (.number a) (.number b) = .error .divisionByZero ↔ value v = 0 := by
    rw [happly .div (.inl rfl), ← hexact.div_zero u v]
    exact map_eq_error_iff
  constructor
  · intro h
    by_cases hop : op.isArithmetic = true ∨ op.isOrdering = true
    · obtain ⟨rfl, -⟩ | ⟨_, hoverflow⟩ | ⟨-, hpanic⟩ := hA.faults op u v _ ((happly op hop).symm.trans h)
      · exact ⟨rfl, hdiv.1 h⟩
      · cases hoverflow
      · cases hpanic
    · cases op with
      | eq | ne => cases h
      | add | sub | mul | div => exact absurd (.inl rfl) hop
      | lt | le | gt | ge => exact absurd (.inr rfl) hop
  · rintro ⟨rfl, hzero⟩
    exact hdiv.2 hzero

/-- A quotient of integers overflows just where the least integer of a width is divided by minus one. -/
theorem quotient_overflow_iff {n m : Int} (ha : a.integer? = some n) (hb : b.integer? = some m) :
    (∃ computation, BinaryOp.div.apply (.number a) (.number b) = .error (.integerOverflow computation)) ↔
      m = -1 ∧ (promote a.kind b.kind = .int ∧ n = -2 ^ 31 ∨ promote a.kind b.kind = .long ∧ n = -2 ^ 63) := by
  by_cases hm : m = 0
  · have hzero : (m : ℚ) = 0 := by rw [hm, Int.cast_zero]
    have hfault := (apply_divisionByZero_iff .div (Number.value?_of_integer? ha)
      (Number.value?_of_integer? hb)).2 ⟨rfl, hzero⟩
    rw [hfault]
    exact iff_of_false nofun (by omega)
  have hfault := computes_quotient ha hb hm
  have hoverflow : (∃ computation, BinaryOp.div.apply (.number a) (.number b) = .error (.integerOverflow computation)) ↔
      ¬(promote a.kind b.kind).Holds (n.tdiv m : Int) :=
    ⟨fun ⟨_, h⟩ => hfault.error_iff.1 ⟨_, h⟩, fun h => ⟨_, hfault.overflow h⟩⟩
  have hn := Number.holds_of_integer? ha (covers_promote_left a.kind b.kind)
  rw [hoverflow]
  cases hkind : promote a.kind b.kind with
  | float | double | bigInt | decimal => exact iff_of_false (not_not_intro trivial) (by simp)
  | int =>
    rw [hkind, holds_int_iff] at hn
    rw [holds_int_iff, fitsInto_tdiv_iff hn hm, not_not]
    exact and_congr_right fun _ => by simp
  | long =>
    rw [hkind, holds_long_iff] at hn
    rw [holds_long_iff, fitsInto_tdiv_iff hn hm, not_not]
    exact and_congr_right fun _ => by simp

/-- An operator works with operands in the arithmetic of the common kind, or one of the numbers is none of its operands.
That is so only of decimals, and of numbers that are not finite. -/
theorem BinaryOp.apply_number_cases (hop : op.isArithmetic = true ∨ op.isOrdering = true) (a b : Number) :
    ((promote a.kind b.kind = .decimal ∧ ¬(a.isFinite = true ∧ b.isFinite = true)) ∧
      ∃ text, op.apply (.number a) (.number b) = .error (.numericConversion text .decimal)) ∨
    ((promote a.kind b.kind = .decimal → a.isFinite = true ∧ b.isFinite = true) ∧
      ∃ (α : Type) (A : Arithmetic α) (u v : α), A.Implements (promote a.kind b.kind) ∧
        op.apply (.number a) (.number b) = A.operate op u v) := by
  obtain ⟨α, A, hA⟩ := exists_implements (promote a.kind b.kind)
  have hleft := hA.converts a (covers_promote_left _ _)
  have hright := hA.converts b (covers_promote_right _ _)
  rw [op.apply_number hop, hA.apply_eq]
  cases hu : A.convert? a with
  | none =>
    rw [hu] at hleft
    obtain ⟨hkind, hfinite⟩ := Classical.not_imp.1 (mt hleft.2 nofun)
    refine .inl ⟨⟨hkind, fun h => hfinite h.1⟩, a.display, ?_⟩
    rw [Arithmetic.apply, Arithmetic.convert_of_none hu, hA.kind_eq, hkind]
    rfl
  | some u =>
    rw [hu] at hleft
    cases hv : A.convert? b with
    | none =>
      rw [hv] at hright
      obtain ⟨hkind, hfinite⟩ := Classical.not_imp.1 (mt hright.2 nofun)
      refine .inl ⟨⟨hkind, fun h => hfinite h.2⟩, b.display, ?_⟩
      rw [Arithmetic.apply, Arithmetic.convert_of_some hu, Arithmetic.convert_of_none hv, hA.kind_eq, hkind]
      rfl
    | some v =>
      rw [hv] at hright
      exact .inr ⟨fun hkind => ⟨hleft.1 rfl hkind, hright.1 rfl hkind⟩, α, A, u, v, hA, Arithmetic.apply_of_some hu hv⟩

/-- The arithmetic operators yield numbers of the common kind. -/
theorem kind_of_apply {v : Value} (hop : op.isArithmetic = true) (h : op.apply (.number a) (.number b) = .ok v) :
    ∃ c : Number, v = .number c ∧ c.kind = promote a.kind b.kind := by
  obtain ⟨-, text, hfault⟩ | ⟨-, α, A, x, y, hA, happly⟩ := op.apply_number_cases (.inl hop) a b
  · rw [hfault] at h
    cases h
  have of_map : ∀ {r : Except EvalFault α}, r.map (Value.number ∘ A.wrap) = .ok v →
      ∃ c : Number, v = .number c ∧ c.kind = promote a.kind b.kind := by
    rintro (_ | z) he
    · cases he
    · exact ⟨A.wrap z, (Except.ok.inj he).symm, hA.wrap_kind z⟩
  rw [happly] at h
  cases op with
  | add | sub | mul | div => exact of_map h
  | eq | ne | lt | le | gt | ge => cases hop

/-- Operands are not converted just where a number that is not finite would have to be a decimal. -/
theorem apply_numericConversion_iff (hop : op.isArithmetic = true ∨ op.isOrdering = true) :
    (∃ text kind, op.apply (.number a) (.number b) = .error (.numericConversion text kind)) ↔
      promote a.kind b.kind = .decimal ∧ ¬(a.isFinite = true ∧ b.isFinite = true) := by
  obtain ⟨hkind, text, hfault⟩ | ⟨hkind, α, A, x, y, hA, happly⟩ := op.apply_number_cases hop a b
  · exact iff_of_true ⟨text, _, hfault⟩ hkind
  refine iff_of_false ?_ fun h => h.2 (hkind h.1)
  rintro ⟨text, kind, h⟩
  obtain ⟨-, hzero⟩ | ⟨_, hoverflow⟩ | ⟨-, hpanic⟩ := hA.faults op x y _ (happly.symm.trans h)
  · cases hzero
  · cases hoverflow
  · cases hpanic

/-- The operators panic just on decimals that they have no result for. -/
theorem apply_panic_iff (op : BinaryOp) (a b : Number) (p : Panic) :
    op.apply (.number a) (.number b) = .error (.panic p) ↔
      p = .scaleOverflow ∧ (promote a.kind b.kind).Panics op a b := by
  by_cases hop : op.isArithmetic = true ∨ op.isOrdering = true
  · by_cases hkind : promote a.kind b.kind = .decimal
    · rw [op.apply_number hop, hkind]
      show Arithmetic.decimal.apply op (.number a) (.number b) = _ ↔ _
      cases ha : Arithmetic.decimal.convert? a with
      | none =>
        rw [Arithmetic.apply, Arithmetic.convert_of_none ha]
        refine iff_of_false nofun fun ⟨_, _, d, _, hd, _⟩ => ?_
        rw [ha] at hd
        cases hd
      | some d =>
        cases hb : Arithmetic.decimal.convert? b with
        | none =>
          rw [Arithmetic.apply, Arithmetic.convert_of_some ha, Arithmetic.convert_of_none hb]
          refine iff_of_false nofun fun ⟨_, _, _, e, _, he, _⟩ => ?_
          rw [hb] at he
          cases he
        | some e =>
          rw [Arithmetic.apply_of_some ha hb, Arithmetic.operate_decimal_panic_iff]
          exact and_congr_right fun _ => Arithmetic.exact_decimal.panics_iff op a b d e ha hb
    · refine iff_of_false (fun h => ?_) fun h => hkind h.2.1
      obtain ⟨⟨hdecimal, -⟩, -⟩ | ⟨-, α, A, x, y, hA, happly⟩ := op.apply_number_cases hop a b
      · exact hkind hdecimal
      · obtain ⟨-, hzero⟩ | ⟨_, hoverflow⟩ | ⟨hdecimal, -⟩ := hA.faults op x y _ (happly.symm.trans h)
        · cases hzero
        · cases hoverflow
        · exact hkind hdecimal
  · cases op with
    | eq | ne => exact iff_of_false nofun fun ⟨_, _, _, _, _, _, h⟩ => h
    | add | sub | mul | div => exact absurd (.inl rfl) hop
    | lt | le | gt | ge => exact absurd (.inr rfl) hop

/-- Negation overflows just on the least integers of each width. -/
theorem neg_error_iff : (∃ f, UnaryOp.neg.apply (.number a) = .error f) ↔
    a = .int Int32.minValue ∨ a = .long Int64.minValue := by
  cases a with
  | int n =>
    have hn : fitsInto 32 n.toInt = true := fitsInto_iff.2 ⟨n.le_toInt, n.toInt_lt⟩
    have hmin : -Nat.pow 2 (32 - 1) = Int32.minValue.toInt := rfl
    rw [(computes_negative rfl).error_iff, ← Int.cast_neg]
    show ¬NumericKind.int.Holds _ ↔ _
    rw [holds_int_iff, fitsInto_neg_iff hn, not_not, hmin, Int32.toInt_inj]
    simp
  | long n =>
    have hn : fitsInto 64 n.toInt = true := fitsInto_iff.2 ⟨n.le_toInt, n.toInt_lt⟩
    have hmin : -Nat.pow 2 (64 - 1) = Int64.minValue.toInt := rfl
    rw [(computes_negative rfl).error_iff, ← Int.cast_neg]
    show ¬NumericKind.long.Holds _ ↔ _
    rw [holds_long_iff, fitsInto_neg_iff hn, not_not, hmin, Int64.toInt_inj]
    simp
  | float | double => exact iff_of_false nofun nofun
  | bigInt | decimal =>
    rw [(computes_negative rfl).error_iff]
    exact iff_of_false (not_not_intro trivial) nofun

/-! ## All of it together -/

/-- What operators make of two numbers. Values are those of the kinds that are no floating-point ones. Sums, differences
and products have the exact value, unless the operator overflows or panics. -/
structure Number.CombinedExactly (a b : Number) : Prop where
  sum : ∀ x y, a.value? = some x → b.value? = some y →
    (promote a.kind b.kind).Computes .addition (x + y) ((promote a.kind b.kind).Panics .add a b)
      (BinaryOp.add.apply (.number a) (.number b))
  difference : ∀ x y, a.value? = some x → b.value? = some y →
    (promote a.kind b.kind).Computes .subtraction (x - y) ((promote a.kind b.kind).Panics .sub a b)
      (BinaryOp.sub.apply (.number a) (.number b))
  product : ∀ x y, a.value? = some x → b.value? = some y →
    (promote a.kind b.kind).Computes .multiplication (x * y) ((promote a.kind b.kind).Panics .mul a b)
      (BinaryOp.mul.apply (.number a) (.number b))
  /-- A quotient of integers is truncated toward zero. -/
  quotient : ∀ n m, a.integer? = some n → b.integer? = some m → m ≠ 0 →
    (promote a.kind b.kind).Computes .division (n.tdiv m : Int) False (BinaryOp.div.apply (.number a) (.number b))
  quotientOverflow : ∀ n m, a.integer? = some n → b.integer? = some m →
    ((∃ computation, BinaryOp.div.apply (.number a) (.number b) = .error (.integerOverflow computation)) ↔
      m = -1 ∧ (promote a.kind b.kind = .int ∧ n = -2 ^ 31 ∨ promote a.kind b.kind = .long ∧ n = -2 ^ 63))
  divisionByZero : ∀ x y, a.value? = some x → b.value? = some y → ∀ op : BinaryOp,
    (op.apply (.number a) (.number b) = .error .divisionByZero ↔ op = .div ∧ y = 0)
  /-- Of any kinds, the floating-point ones among them. -/
  kind : ∀ (op : BinaryOp) v, op.isArithmetic = true → op.apply (.number a) (.number b) = .ok v →
    ∃ c : Number, v = .number c ∧ c.kind = promote a.kind b.kind
  /-- Of any kinds, too. -/
  conversion : ∀ op : BinaryOp, op.isArithmetic = true ∨ op.isOrdering = true →
    ((∃ text kind, op.apply (.number a) (.number b) = .error (.numericConversion text kind)) ↔
      promote a.kind b.kind = .decimal ∧ ¬(a.isFinite = true ∧ b.isFinite = true))
  /-- Of any kinds, too: only decimals panic, where scales leave their bits or are too far apart. -/
  panic : ∀ (op : BinaryOp) p, op.apply (.number a) (.number b) = .error (.panic p) ↔
    p = .scaleOverflow ∧ (promote a.kind b.kind).Panics op a b
  negative : ∀ x, a.value? = some x → a.kind.Computes .negation (-x) False (UnaryOp.neg.apply (.number a))
  negativeFloating : (∀ x, a = .float x → UnaryOp.neg.apply (.number a) = .ok (.float (-x))) ∧
    ∀ x, a = .double x → UnaryOp.neg.apply (.number a) = .ok (.double (-x))
  negativeOverflow : (∃ f, UnaryOp.neg.apply (.number a) = .error f) ↔
    a = .int Int32.minValue ∨ a = .long Int64.minValue

/-- The operators are exact on numbers of all kinds but the floating-point ones, and on those yield numbers of the
common kind. Decimals whose scales do not allow a result make them panic. -/
theorem Number.combinedExactly (a b : Number) : a.CombinedExactly b where
  sum _ _ ha hb := computes_sum ha hb
  difference _ _ ha hb := computes_difference ha hb
  product _ _ ha hb := computes_product ha hb
  quotient _ _ ha hb hm := computes_quotient ha hb hm
  quotientOverflow _ _ ha hb := quotient_overflow_iff ha hb
  divisionByZero _ _ ha hb op := apply_divisionByZero_iff op ha hb
  kind _ _ hop h := kind_of_apply hop h
  conversion _ hop := apply_numericConversion_iff hop
  panic op p := apply_panic_iff op a b p
  negative _ ha := computes_negative ha
  negativeFloating := ⟨by rintro x rfl; rfl, by rintro x rfl; rfl⟩
  negativeOverflow := neg_error_iff

/-- A decimal so small that the scale of its square leaves its bits: multiplication yields neither the square nor an
overflow, but panics. -/
theorem product_of_tiny_decimals : ∃ d : Decimal, Decimal.ofString? "2e-9223372036854775807" = some d ∧
    BinaryOp.mul.apply (.decimal d) (.decimal d) = .error (.panic .scaleOverflow) ∧
    ¬NumericKind.decimal.Computes .multiplication (d.value * d.value) False
      (BinaryOp.mul.apply (.decimal d) (.decimal d)) := by
  have hread : Decimal.ofString? "2e-9223372036854775807" = some ⟨2, 9223372036854775807⟩ := by decide +kernel
  have hpanic : BinaryOp.mul.apply (.decimal ⟨2, 9223372036854775807⟩) (.decimal ⟨2, 9223372036854775807⟩) =
      .error (.panic .scaleOverflow) := rfl
  refine ⟨_, hread, hpanic, fun h => ?_⟩
  obtain ⟨v, hv, -⟩ := h.found trivial id
  rw [hpanic] at hv
  cases hv

end QueryTemplate
