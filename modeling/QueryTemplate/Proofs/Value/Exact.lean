import QueryTemplate.Value.Operator
import QueryTemplate.Proofs.Value.Displayed
import QueryTemplate.Proofs.Value.Rational

/-!
# Exact arithmetic

A computation is exact in a kind if it yields a number of the kind with the value of the result, overflows where the
kind has no such number, and panics where it is said to (`Finds`). The arithmetics of all kinds but those of
floating-point numbers are exact (`Arithmetic.Exact`): the integers of a width are so once for every width, and decimals
by what their operations do to their values. Only on decimals there are panics, just where an operation has no result
(`Decimal.HasNoResult`).

What the arithmetics of all six kinds have in common is which numbers they take and which faults their operators have
(`Arithmetic.Implements`).
-/

namespace QueryTemplate

variable {α β : Type}

/-! ## Results in a kind -/

/-- Whether a number of the kind can have an integer value `z`: those of a fixed width are bounded. -/
def NumericKind.Holds (kind : NumericKind) (z : ℚ) : Prop :=
  match kind with
  | int => -2 ^ 31 ≤ z ∧ z < 2 ^ 31
  | long => -2 ^ 63 ≤ z ∧ z < 2 ^ 63
  | float | double | bigInt | decimal => True

theorem NumericKind.holds_int_iff {n : Int} : int.Holds n ↔ fitsInto 32 n = true := by
  rw [fitsInto_iff]
  show -2 ^ 31 ≤ (n : ℚ) ∧ (n : ℚ) < 2 ^ 31 ↔ -(2 ^ 31 : Int) ≤ n ∧ n < 2 ^ 31
  exact_mod_cast Iff.rfl

theorem NumericKind.holds_long_iff {n : Int} : long.Holds n ↔ fitsInto 64 n = true := by
  rw [fitsInto_iff]
  show -2 ^ 63 ≤ (n : ℚ) ∧ (n : ℚ) < 2 ^ 63 ↔ -(2 ^ 63 : Int) ≤ n ∧ n < 2 ^ 63
  exact_mod_cast Iff.rfl

/-- What comes out of a computation in a kind that finds `z` exactly: an overflow, just where no number of the kind has
this value, a panic where one is to be expected, and else what stands for `z`. -/
structure Finds (Stands : α → ℚ → Prop) (kind : NumericKind) (computation : Computation) (z : ℚ) (panics : Prop)
    (r : Except EvalFault α) : Prop where
  found : kind.Holds z → ¬panics → ∃ x, r = .ok x ∧ Stands x z
  overflow : ¬kind.Holds z → r = .error (.integerOverflow computation)
  panic : kind.Holds z → panics → r = .error (.panic .scaleOverflow)

namespace Finds

variable {Stands : α → ℚ → Prop} {kind : NumericKind} {computation : Computation} {z : ℚ} {panics : Prop}
  {r : Except EvalFault α}

theorem of_ok {x : α} (hkind : kind.Holds z) (hx : Stands x z) : Finds Stands kind computation z False (.ok x) :=
  ⟨fun _ _ => ⟨x, rfl, hx⟩, fun h => absurd hkind h, fun _ h => h.elim⟩

theorem of_not_holds (hkind : ¬kind.Holds z) :
    Finds Stands kind computation z False (.error (.integerOverflow computation)) :=
  ⟨fun h => absurd h hkind, fun _ => rfl, fun h => absurd h hkind⟩

theorem map {Stands' : β → ℚ → Prop} {f : α → β} (h : Finds Stands kind computation z panics r)
    (hf : ∀ x, Stands x z → Stands' (f x) z) : Finds Stands' kind computation z panics (r.map f) where
  found hz hp := by
    obtain ⟨x, rfl, hx⟩ := h.found hz hp
    exact ⟨f x, rfl, hf x hx⟩
  overflow hz := by rw [h.overflow hz]; rfl
  panic hz hp := by rw [h.panic hz hp]; rfl

theorem congr {panics' : Prop} (h : Finds Stands kind computation z panics r) (hp : panics ↔ panics') :
    Finds Stands kind computation z panics' r := propext hp ▸ h

/-- Without a panic the only fault is an overflow, of a value that the kind has no number for. -/
theorem error_iff (h : Finds Stands kind computation z False r) : (∃ f, r = .error f) ↔ ¬kind.Holds z := by
  constructor
  · rintro ⟨f, rfl⟩ hz
    obtain ⟨_, hok, -⟩ := h.found hz id
    cases hok
  · exact fun hz => ⟨_, h.overflow hz⟩

end Finds

/-- Whether a value is a number of a kind, with the value `z`. -/
def Value.IsExactly (kind : NumericKind) (v : Value) (z : ℚ) : Prop :=
  ∃ c : Number, v = .number c ∧ c.kind = kind ∧ c.value? = some z

/-- Whether `r` is what comes out of a computation in a kind that finds `z` exactly, unless it panics. -/
def NumericKind.Computes (kind : NumericKind) (computation : Computation) (z : ℚ) (panics : Prop)
    (r : Except EvalFault Value) : Prop :=
  Finds (Value.IsExactly kind) kind computation z panics r

/-! ## Kinds that cover others -/

namespace NumericKind

/-- Whether numbers of the kind `k` are worked with in `kind`, unless they are not finite. -/
def Covers (kind k : NumericKind) : Prop := k.rank ≤ kind.rank ∧ (kind = bigInt → k ≠ float ∧ k ≠ double)

instance (kind k : NumericKind) : Decidable (kind.Covers k) := inferInstanceAs (Decidable (_ ∧ _))

theorem covers_self (kind : NumericKind) : kind.Covers kind := by cases kind <;> decide

theorem covers_promote_left (a b : NumericKind) : (promote a b).Covers a := by cases a <;> cases b <;> decide

theorem covers_promote_right (a b : NumericKind) : (promote a b).Covers b := by cases a <;> cases b <;> decide

/-- Whether the numbers of a kind have rational values. -/
def IsExact (kind : NumericKind) : Prop := kind ≠ float ∧ kind ≠ double

theorem IsExact.promote {a b : NumericKind} (ha : a.IsExact) (hb : b.IsExact) : (promote a b).IsExact := by
  revert ha hb
  unfold IsExact
  cases a <;> cases b <;> decide

end NumericKind

theorem Number.isExact_kind {a : Number} {z : ℚ} (h : a.value? = some z) : a.kind.IsExact := by
  cases a with
  | float | double => cases h
  | int | long | bigInt | decimal => exact ⟨nofun, nofun⟩

/-! ## What an arithmetic has to do -/

/-- Whether an arithmetic operator has no result on two decimals: scales leave their bits, or are too far apart. -/
def Decimal.HasNoResult (op : BinaryOp) (a b : Decimal) : Prop :=
  match op with
  | .add => a.TooFarApart b
  | .sub => a.isZero = false ∧ b.isZero = false ∧ a.TooFarApart b
  | .mul => a.isOne = false ∧ b.isOne = false ∧ fitsInto scaleBits (a.scale + b.scale) = false
  | .div => a.isZero = false ∧ b.isZero = false ∧ b.isOne = false ∧ a.QuotientLeavesScale b
  | .eq | .ne | .lt | .le | .gt | .ge => False

/-- Whether an operator panics on two numbers that are worked with in a kind: as decimals, if it has no result. -/
def NumericKind.Panics (kind : NumericKind) (op : BinaryOp) (a b : Number) : Prop :=
  kind = .decimal ∧ ∃ d e, Arithmetic.decimal.convert? a = some d ∧ Arithmetic.decimal.convert? b = some e ∧
    d.HasNoResult op e

/-- Whether a fault is one that an operator has on numbers of a kind. -/
def BinaryOp.HasFault (kind : NumericKind) (op : BinaryOp) (f : EvalFault) : Prop :=
  op = div ∧ f = .divisionByZero ∨ (∃ computation, f = .integerOverflow computation) ∨
    kind = .decimal ∧ f = .panic .scaleOverflow

theorem map_eq_error_iff {r : Except EvalFault α} {g : α → β} {f : EvalFault} : r.map g = .error f ↔ r = .error f := by
  cases r with
  | ok x => exact iff_of_false nofun nofun
  | error e => exact (Except.error.injEq e f).to_iff.trans (Except.error.injEq e f).to_iff.symm

namespace Arithmetic

open NumericKind

/-- The arithmetic of a kind. Numbers of the kinds that it covers are converted, except that those that are not finite
are no decimals; and the operators have no further faults. -/
structure Implements (A : Arithmetic α) (kind : NumericKind) : Prop where
  kind_eq : A.kind = kind
  apply_eq : ∀ op v w, kind.apply op v w = A.apply op v w
  negate_eq : ∀ v, kind.negate v = A.negate v
  wrap_kind : ∀ x, (A.wrap x).kind = kind
  converts : ∀ n, kind.Covers n.kind → ((A.convert? n).isSome = true ↔ (kind = .decimal → n.isFinite = true))
  faults : ∀ op x y f, A.operate op x y = .error f → op.HasFault kind f

/-- An arithmetic whose numbers have rational values, on which its operations are exact unless they panic. Quotients are
those of integers. -/
structure Exact (A : Arithmetic α) (value : α → ℚ) (panics : BinaryOp → α → α → Prop) : Prop where
  convert : ∀ n z, A.kind.Covers n.kind → n.value? = some z → ∃ x, A.convert? n = some x ∧ value x = z
  wrap : ∀ x, (A.wrap x).value? = some (value x)
  add : ∀ x y, Finds (value · = ·) A.kind .addition (value x + value y) (panics .add x y) (A.add x y)
  sub : ∀ x y, Finds (value · = ·) A.kind .subtraction (value x - value y) (panics .sub x y) (A.sub x y)
  mul : ∀ x y, Finds (value · = ·) A.kind .multiplication (value x * value y) (panics .mul x y) (A.mul x y)
  div : A.kind ≠ .decimal → ∀ x y (n m : Int), value x = n → value y = m → m ≠ 0 →
    Finds (value · = ·) A.kind .division (n.tdiv m : Int) False (A.div x y)
  div_zero : ∀ x y, A.div x y = .error .divisionByZero ↔ value y = 0
  neg : ∀ x, Finds (value · = ·) A.kind .negation (-value x) False (A.neg x)
  panics_iff : ∀ op a b x y, A.convert? a = some x → A.convert? b = some y → (panics op x y ↔ A.kind.Panics op a b)

/-! ## The arithmetic of each kind -/

/-- What always has a result has no fault. -/
theorem hasFault_of_ok {kind : NumericKind} {op : BinaryOp} {x : α} {f : EvalFault} (h : Except.ok x = .error f) :
    op.HasFault kind f := by
  cases h

/-- Only decimals panic. -/
theorem panics_iff_of_ne {kind : NumericKind} (h : kind ≠ .decimal) (op : BinaryOp) (a b : Number) :
    False ↔ kind.Panics op a b := iff_of_false id fun hp => h hp.1

theorem operate_faults {A : Arithmetic α} {kind : NumericKind}
    (hadd : ∀ x y f, A.add x y = .error f → BinaryOp.add.HasFault kind f)
    (hsub : ∀ x y f, A.sub x y = .error f → BinaryOp.sub.HasFault kind f)
    (hmul : ∀ x y f, A.mul x y = .error f → BinaryOp.mul.HasFault kind f)
    (hdiv : ∀ x y f, A.div x y = .error f → BinaryOp.div.HasFault kind f) (op : BinaryOp) (x y : α) (f : EvalFault)
    (h : A.operate op x y = .error f) : op.HasFault kind f := by
  cases op with
  | add => exact hadd x y f (map_eq_error_iff.1 h)
  | sub => exact hsub x y f (map_eq_error_iff.1 h)
  | mul => exact hmul x y f (map_eq_error_iff.1 h)
  | div => exact hdiv x y f (map_eq_error_iff.1 h)
  | eq | ne | lt | le | gt | ge => cases h

section OfWidth

variable {kind : NumericKind} {bits : Nat} {convert? : Number → Option α} {wrap : α → Number} {toInt : α → Int}
  {ofInt : Int → α}

/-- The integers of a width overflow just where the exact result does not fit. -/
theorem exact_ofWidth (hkind : kind ≠ .decimal) (hholds : ∀ n : Int, kind.Holds n ↔ fitsInto bits n = true)
    (hof : ∀ n, fitsInto bits n = true → toInt (ofInt n) = n)
    (hconvert : ∀ n z, kind.Covers n.kind → n.value? = some z → ∃ x, convert? n = some x ∧ (toInt x : ℚ) = z)
    (hwrap : ∀ x, (wrap x).value? = some (toInt x : ℚ)) :
    (ofWidth kind bits convert? wrap toInt ofInt).Exact (fun x => (toInt x : ℚ)) fun _ _ _ => False := by
  have checked : ∀ (computation : Computation) (n : Int),
      Finds (fun x z => (toInt x : ℚ) = z) kind computation n False
        (if fitsInto bits n then .ok (ofInt n) else .error (.integerOverflow computation)) := by
    intro computation n
    split
    next hfits => exact .of_ok ((hholds n).2 hfits) (congrArg _ (hof n hfits))
    next hfits => exact .of_not_holds fun h => hfits ((hholds n).1 h)
  refine ⟨hconvert, hwrap, fun x y => ?_, fun x y => ?_, fun x y => ?_, fun _ x y n m hn hm hzero => ?_,
    fun x y => ?_, fun x => ?_, fun op a b _ _ _ _ => panics_iff_of_ne hkind op a b⟩
  · rw [← Int.cast_add]
    exact checked .addition _
  · rw [← Int.cast_sub]
    exact checked .subtraction _
  · rw [← Int.cast_mul]
    exact checked .multiplication _
  · obtain rfl := Int.cast_inj.1 hn
    obtain rfl := Int.cast_inj.1 hm
    show Finds _ _ _ _ _ (if toInt y = 0 then _ else _)
    rw [if_neg hzero]
    exact checked .division _
  · show (if toInt y = 0 then _ else _) = _ ↔ _
    rw [Int.cast_eq_zero]
    split
    next hzero => exact iff_of_true rfl hzero
    next hzero =>
      refine iff_of_false ?_ hzero
      split
      · nofun
      · nofun
  · rw [← Int.cast_neg]
    exact checked .negation _

theorem faults_ofWidth (op : BinaryOp) (x y : α) (f : EvalFault)
    (h : (ofWidth kind bits convert? wrap toInt ofInt).operate op x y = .error f) : op.HasFault kind f := by
  have of_checked : ∀ {op : BinaryOp} (computation : Computation) (n : Int) (f : EvalFault),
      (if fitsInto bits n then .ok (ofInt n) else .error (.integerOverflow computation) : Except EvalFault α) =
        .error f → op.HasFault kind f := by
    intro op computation n f he
    split at he
    · cases he
    · exact .inr (.inl ⟨computation, (Except.error.inj he).symm⟩)
  refine operate_faults (fun x y => of_checked _ _) (fun x y => of_checked _ _) (fun x y => of_checked _ _)
    (fun x y f he => ?_) op x y f h
  change (if toInt y = 0 then _ else _) = _ at he
  split at he
  · exact .inl ⟨rfl, (Except.error.inj he).symm⟩
  · exact of_checked _ _ f he

end OfWidth

theorem exact_int : int.Exact (fun n => (n.toInt : ℚ)) fun _ _ _ => False := by
  refine exact_ofWidth nofun (fun _ => holds_int_iff) (fun n h => ?_) (fun n z hn hz => ?_) fun _ => rfl
  · obtain ⟨hlow, hhigh⟩ := fitsInto_iff.1 h
    exact Int32.toInt_ofInt_of_le hlow hhigh
  · cases n with
    | int n => exact ⟨n, rfl, Option.some.inj hz⟩
    | long | float | double | bigInt | decimal => exact absurd hn (of_decide_eq_false rfl)

theorem exact_long : long.Exact (fun n => (n.toInt : ℚ)) fun _ _ _ => False := by
  refine exact_ofWidth nofun (fun _ => holds_long_iff) (fun n h => ?_) (fun n z hn hz => ?_) fun _ => rfl
  · obtain ⟨hlow, hhigh⟩ := fitsInto_iff.1 h
    exact Int64.toInt_ofInt_of_le hlow hhigh
  · cases n with
    | int n =>
      refine ⟨n.toInt64, rfl, ?_⟩
      rw [Int32.toInt_toInt64]
      exact Option.some.inj hz
    | long n => exact ⟨n, rfl, Option.some.inj hz⟩
    | float | double | bigInt | decimal => exact absurd hn (of_decide_eq_false rfl)

theorem exact_bigInt : bigInt.Exact (fun n => (n : ℚ)) fun _ _ _ => False where
  convert n z hn hz := by
    cases n with
    | int | long | bigInt => exact ⟨_, rfl, Option.some.inj hz⟩
    | float | double | decimal => exact absurd hn (of_decide_eq_false rfl)
  wrap _ := rfl
  add x y := .of_ok trivial (Int.cast_add x y)
  sub x y := .of_ok trivial (Int.cast_sub x y)
  mul x y := .of_ok trivial (Int.cast_mul x y)
  div _ x y n m hn hm hzero := by
    obtain rfl := Int.cast_inj.1 hn
    obtain rfl := Int.cast_inj.1 hm
    show Finds _ _ _ _ _ (if y = 0 then _ else _)
    rw [if_neg hzero]
    exact .of_ok trivial rfl
  div_zero x y := by
    show (if y = 0 then _ else _) = _ ↔ _
    rw [Int.cast_eq_zero]
    split
    next hzero => exact iff_of_true rfl hzero
    next hzero => exact iff_of_false nofun hzero
  neg x := .of_ok trivial (Int.cast_neg x)
  panics_iff op a b _ _ _ _ := panics_iff_of_ne (show NumericKind.bigInt ≠ .decimal by decide) op a b

/-- An operation on decimals that finds the value, if it has a result. -/
theorem finds_ofScale {computation : Computation} {z : ℚ} {panics : Prop} {d : Option Decimal}
    (hnone : d = none ↔ panics) (hvalue : ∀ c, d = some c → c.value = z) :
    Finds (Decimal.value · = ·) .decimal computation z panics (ofScale d) := by
  cases d with
  | none => exact ⟨fun _ hp => absurd (hnone.1 rfl) hp, fun h => absurd trivial h, fun _ _ => rfl⟩
  | some c => exact ⟨fun _ _ => ⟨c, rfl, hvalue c rfl⟩, fun h => absurd trivial h, fun _ hp => nomatch hnone.2 hp⟩

theorem ofScale_eq_error_iff {d : Option Decimal} {f : EvalFault} :
    ofScale d = .error f ↔ d = none ∧ f = .panic .scaleOverflow := by
  cases d with
  | none => simp [ofScale, eq_comm]
  | some c => simp [ofScale]

theorem exact_decimal : decimal.Exact Decimal.value Decimal.HasNoResult where
  convert n z hn hz := by
    cases n with
    | int | long | bigInt => exact ⟨_, rfl, (Decimal.value_ofInt _).trans (Option.some.inj hz)⟩
    | decimal d => exact ⟨d, rfl, Option.some.inj hz⟩
    | float | double => cases hz
  wrap _ := rfl
  add x y := finds_ofScale (Decimal.add?_eq_none_iff x y) fun _ => Decimal.value_add? x y
  sub x y := finds_ofScale (Decimal.sub?_eq_none_iff x y) fun _ => Decimal.value_sub? x y
  mul x y := finds_ofScale (Decimal.mul?_eq_none_iff x y) fun _ => Decimal.value_mul? x y
  div h := absurd rfl h
  div_zero x y := by
    show (if y.isZero = true then _ else _) = _ ↔ _
    rw [Decimal.value_eq_zero_iff]
    split
    next hzero => exact iff_of_true rfl hzero
    next hzero => exact iff_of_false (fun h => nomatch (ofScale_eq_error_iff.1 h).2) hzero
  neg x := .of_ok trivial (Decimal.value_neg x)
  panics_iff op a b x y hx hy := by
    constructor
    · exact fun h => ⟨rfl, x, y, hx, hy, h⟩
    · rintro ⟨-, x', y', hx', hy', h⟩
      obtain rfl := Option.some.inj (hx.symm.trans hx')
      obtain rfl := Option.some.inj (hy.symm.trans hy')
      exact h

/-- Operators on decimals panic just where they have no result. -/
theorem operate_decimal_panic_iff {op : BinaryOp} {x y : Decimal} {p : Panic} :
    decimal.operate op x y = .error (.panic p) ↔ p = .scaleOverflow ∧ x.HasNoResult op y := by
  have of_scale : ∀ {d : Option Decimal} {P : Prop}, (d = none ↔ P) →
      ((ofScale d).map (Value.number ∘ decimal.wrap) = .error (.panic p) ↔ p = .scaleOverflow ∧ P) := by
    intro d P hnone
    rw [map_eq_error_iff, ofScale_eq_error_iff, EvalFault.panic.injEq, hnone, and_comm]
  cases op with
  | add => exact of_scale (Decimal.add?_eq_none_iff x y)
  | sub => exact of_scale (Decimal.sub?_eq_none_iff x y)
  | mul => exact of_scale (Decimal.mul?_eq_none_iff x y)
  | div =>
    show (if y.isZero = true then _ else _ : Except EvalFault Decimal).map _ = _ ↔ _ ∧ _ ∧ _
    split
    next hzero => exact iff_of_false nofun fun h => by simp [hzero] at h
    next hzero =>
      refine (of_scale (Decimal.div?_eq_none_iff x y)).trans ?_
      simp [hzero]
  | eq | ne | lt | le | gt | ge => exact iff_of_false nofun And.right

/-! ## Kinds implemented by arithmetics -/

theorem implements_int : int.Implements .int := by
  refine ⟨rfl, fun _ _ _ => rfl, fun _ => rfl, fun _ => rfl, fun n hn => iff_of_true ?_ nofun, faults_ofWidth⟩
  cases n with
  | int => rfl
  | long | float | double | bigInt | decimal => exact absurd hn (of_decide_eq_false rfl)

theorem implements_long : long.Implements .long := by
  refine ⟨rfl, fun _ _ _ => rfl, fun _ => rfl, fun _ => rfl, fun n hn => iff_of_true ?_ nofun, faults_ofWidth⟩
  cases n with
  | int | long => rfl
  | float | double | bigInt | decimal => exact absurd hn (of_decide_eq_false rfl)

theorem implements_float : float.Implements .float := by
  refine ⟨rfl, fun _ _ _ => rfl, fun _ => rfl, fun _ => rfl, fun n hn => iff_of_true ?_ nofun,
    operate_faults (fun _ _ _ => hasFault_of_ok) (fun _ _ _ => hasFault_of_ok) (fun _ _ _ => hasFault_of_ok)
      fun _ _ _ => hasFault_of_ok⟩
  cases n with
  | int | long | float => rfl
  | double | bigInt | decimal => exact absurd hn (of_decide_eq_false rfl)

theorem implements_double : double.Implements .double := by
  refine ⟨rfl, fun _ _ _ => rfl, fun _ => rfl, fun _ => rfl, fun n hn => iff_of_true ?_ nofun,
    operate_faults (fun _ _ _ => hasFault_of_ok) (fun _ _ _ => hasFault_of_ok) (fun _ _ _ => hasFault_of_ok)
      fun _ _ _ => hasFault_of_ok⟩
  cases n with
  | int | long | float | double => rfl
  | bigInt | decimal => exact absurd hn (of_decide_eq_false rfl)

theorem implements_bigInt : bigInt.Implements .bigInt := by
  refine ⟨rfl, fun _ _ _ => rfl, fun _ => rfl, fun _ => rfl, fun n hn => iff_of_true ?_ nofun,
    operate_faults (fun _ _ _ => hasFault_of_ok) (fun _ _ _ => hasFault_of_ok) (fun _ _ _ => hasFault_of_ok)
      fun x y f h => ?_⟩
  · cases n with
    | int | long | bigInt => rfl
    | float | double | decimal => exact absurd hn (of_decide_eq_false rfl)
  · change (if y = 0 then _ else _) = _ at h
    split at h
    · exact .inl ⟨rfl, (Except.error.inj h).symm⟩
    · cases h

theorem implements_decimal : decimal.Implements .decimal := by
  have of_scale : ∀ {op : BinaryOp} {d : Option Decimal} {f : EvalFault}, ofScale d = .error f →
      op.HasFault .decimal f := fun h => .inr (.inr ⟨rfl, (ofScale_eq_error_iff.1 h).2⟩)
  refine ⟨rfl, fun _ _ _ => rfl, fun _ => rfl, fun _ => rfl, fun n _ => ?_,
    operate_faults (fun _ _ _ => of_scale) (fun _ _ _ => of_scale) (fun _ _ _ => of_scale) fun x y f h => ?_⟩
  · rw [imp_iff_right rfl]
    cases n with
    | int | long | bigInt | decimal => exact Iff.rfl
    | float x => rw [← isSome_ofString?_single]; rfl
    | double x => rw [← isSome_ofString?_double]; rfl
  · change (if y.isZero = true then _ else _) = _ at h
    split at h
    · exact .inl ⟨rfl, (Except.error.inj h).symm⟩
    · exact of_scale h

end Arithmetic

namespace NumericKind

/-- Every kind has an arithmetic. -/
theorem exists_implements (kind : NumericKind) : ∃ (α : Type) (A : Arithmetic α), A.Implements kind := by
  cases kind with
  | int => exact ⟨_, _, Arithmetic.implements_int⟩
  | long => exact ⟨_, _, Arithmetic.implements_long⟩
  | float => exact ⟨_, _, Arithmetic.implements_float⟩
  | double => exact ⟨_, _, Arithmetic.implements_double⟩
  | bigInt => exact ⟨_, _, Arithmetic.implements_bigInt⟩
  | decimal => exact ⟨_, _, Arithmetic.implements_decimal⟩

theorem IsExact.exists_exact {kind : NumericKind} (h : kind.IsExact) :
    ∃ (α : Type) (A : Arithmetic α) (value : α → ℚ) (panics : BinaryOp → α → α → Prop),
      A.Implements kind ∧ A.Exact value panics := by
  cases kind with
  | int => exact ⟨_, _, _, _, Arithmetic.implements_int, Arithmetic.exact_int⟩
  | long => exact ⟨_, _, _, _, Arithmetic.implements_long, Arithmetic.exact_long⟩
  | float => exact absurd rfl h.1
  | double => exact absurd rfl h.2
  | bigInt => exact ⟨_, _, _, _, Arithmetic.implements_bigInt, Arithmetic.exact_bigInt⟩
  | decimal => exact ⟨_, _, _, _, Arithmetic.implements_decimal, Arithmetic.exact_decimal⟩

end NumericKind

end QueryTemplate
