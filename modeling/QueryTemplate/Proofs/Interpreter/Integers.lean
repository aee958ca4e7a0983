import Mathlib
import QueryTemplate.Interpreter.Basic
import QueryTemplate.Proofs.Tree.RoundTrip
import QueryTemplate.Proofs.Value.Displayed
import QueryTemplate.Proofs.Value.Rational

/-!
# Integer literals

Digits are a template, whose value is the integer that they denote, in the narrowest of the three kinds of integer that
holds it (`execute_digits`). It passes through three forms on its way: a token of 64 bits or with all digits, a literal
of either sort, and a number of one of the kinds. The text of the value is that of the template without its leading
zeros (`dropWhile_zero_eq`).
-/

namespace QueryTemplate

/-! ## Leading zeros -/

section Digits

variable {cs : List Char}

theorem digitChar_of_isDigit {c : Char} (h : isDigit c = true) :
    c.toNat - '0'.toNat < 10 ∧ (c.toNat - '0'.toNat).digitChar = c := by
  simp only [isDigit, Bool.and_eq_true, decide_eq_true_eq, Char.le_def, UInt32.le_iff_toNat_le] at h
  have hlow : 48 ≤ c.toNat := h.1
  have hhigh : c.toNat ≤ 57 := h.2
  have hzero : '0'.toNat = 48 := rfl
  have hlt : c.toNat - '0'.toNat < 10 := by omega
  refine ⟨hlt, Char.toNat_inj.1 ?_⟩
  rw [Nat.toNat_digitChar_of_lt_ten hlt]
  omega

/-- Digits without their leading zeros are those of the number that they denote, and none are left of zero. -/
theorem dropWhile_zero_eq (h : ∀ c ∈ cs, isDigit c = true) :
    cs.dropWhile (· == '0') = if digitsValue cs = 0 then [] else Nat.toDigits 10 (digitsValue cs) := by
  induction cs using List.reverseRecOn with
  | nil => rfl
  | append_singleton cs c ih =>
    obtain ⟨hcs, hc⟩ := List.forall_mem_append.1 h
    obtain ⟨hlt, hchar⟩ := digitChar_of_isDigit (hc c (List.mem_singleton_self c))
    rw [List.dropWhile_append, ih hcs, digitsValue_append]
    generalize c.toNat - '0'.toNat = d at hlt hchar
    obtain rfl := hchar
    by_cases hn : digitsValue cs = 0
    · by_cases hd : d = 0
      · simp [hn, hd]
      · simp [hn, hd, Nat.toDigits_of_lt_base hlt]
    · have hquotient : (10 * digitsValue cs + d) / 10 = digitsValue cs := by omega
      have hrest : (10 * digitsValue cs + d) % 10 = d := by omega
      have hsplit : Nat.toDigits 10 (10 * digitsValue cs + d) = Nat.toDigits 10 (digitsValue cs) ++ [d.digitChar] := by
        rw [Nat.toDigits_of_base_le (by decide) (by omega), hquotient, hrest]
      rw [if_neg hn, if_neg (show 10 * digitsValue cs + d ≠ 0 by omega), hsplit]
      simp

/-- Only of zeros nothing is left. -/
theorem digitsValue_eq_zero_iff (h : ∀ c ∈ cs, isDigit c = true) : digitsValue cs = 0 ↔ ∀ c ∈ cs, c = '0' := by
  have hdrop := dropWhile_zero_eq h
  constructor
  · intro hzero
    rw [if_pos hzero, List.dropWhile_eq_nil_iff] at hdrop
    exact fun c hc => beq_iff_eq.1 (hdrop c hc)
  · intro hzeros
    rw [List.dropWhile_eq_nil_iff.2 fun c hc => beq_iff_eq.2 (hzeros c hc)] at hdrop
    by_contra hne
    rw [if_neg hne] at hdrop
    exact Nat.toDigits_ne_nil hdrop.symm

/-- The text of the number that digits denote. -/
theorem naturalText_digitsValue (h : ∀ c ∈ cs, isDigit c = true) : naturalText (digitsValue cs) =
    if ∀ c ∈ cs, c = '0' then "0" else String.ofList (cs.dropWhile (· == '0')) := by
  have hdrop := dropWhile_zero_eq h
  rw [naturalText, naturalDigits_eq_toDigits]
  split
  next hzeros =>
    rw [(digitsValue_eq_zero_iff h).2 hzeros]
    rfl
  next hother => rw [hdrop, if_neg fun hzero => hother ((digitsValue_eq_zero_iff h).1 hzero)]

/-- Digits denote what the library reads them as. -/
theorem toNat?_of_isDigits {s : String} (h : IsDigits s.toList) : s.toNat? = some (digitsValue s.toList) := by
  have hne : s ≠ "" := fun he => h.1 (by rw [he]; rfl)
  have hplain : s.toList.filter (· != '_') = s.toList := List.filter_eq_self.2 fun c hc => by
    refine bne_iff_ne.2 fun he => ?_
    have hdigit := h.2 c hc
    rw [he] at hdigit
    cases hdigit
  rw [String.toNat?_eq_some_ofDigitChars (String.isNat_of_isDigit hne h.2), hplain]
  rfl

end Digits

/-! ## From the token to the value -/

/-- The literal that is read from the token of digits. -/
def Literal.ofDigits (digits : List Char) : Literal :=
  if fitsInto 64 (digitsValue digits) then int (Int64.ofNat (digitsValue digits)) else bigInt (String.ofList digits)

theorem Literal.symbol_ofDigits (digits : List Char) :
    (ofDigits digits).symbol = (.number, integerPayload digits) := by
  by_cases h : fitsInto 64 (digitsValue digits) = true
  · have hliteral : ofDigits digits = int (Int64.ofNat (digitsValue digits)) := if_pos h
    have hpayload : integerPayload digits = .integer (Int64.ofNat (digitsValue digits)) := by
      simp only [integerPayload, h, ↓reduceIte]
    rw [hliteral, hpayload, symbol]
  · have hliteral : ofDigits digits = bigInt (String.ofList digits) := if_neg h
    have hpayload : integerPayload digits = .bigInteger (String.ofList digits) := by
      simp only [integerPayload, h, Bool.false_eq_true, ↓reduceIte]
    rw [hliteral, hpayload, symbol]

/-- A natural number in the narrowest kind of integer that holds it. -/
def Number.ofNat (n : Nat) : Number :=
  if n < 2 ^ 31 then int (Int32.ofNat n) else if n < 2 ^ 63 then long (Int64.ofNat n) else bigInt n

namespace Number

theorem kind_ofNat (n : Nat) :
    (ofNat n).kind = if n < 2 ^ 31 then .int else if n < 2 ^ 63 then .long else .bigInt := by
  unfold ofNat
  split
  · rfl
  · split <;> rfl

theorem integer?_ofNat (n : Nat) : (ofNat n).integer? = some (n : Int) := by
  unfold ofNat
  split
  next h => exact congrArg some (Int32.toInt_ofNat_of_lt h)
  next =>
    split
    next h => exact congrArg some (Int64.toInt_ofNat_of_lt h)
    next => rfl

/-- The text of an integer does not depend on its kind. -/
theorem display_of_integer? {x : Number} {n : Nat} (h : x.integer? = some (n : Int)) : x.display = naturalText n := by
  have htext : ∀ {k : Int}, some k = some (n : Int) → integerText k = naturalText n := fun hk => by
    rw [Option.some.inj hk, integerText, if_neg (by omega), Int.natAbs_natCast]
  cases x with
  | int | long | bigInt => exact htext h
  | decimal | float | double => cases h

end Number

/-- A literal of digits has the number that they denote for its value. -/
theorem Literal.value_ofDigits {digits : List Char} (h : IsDigits digits) :
    (ofDigits digits).value = .ok (.number (.ofNat (digitsValue digits))) := by
  have hlarge : Nat.pow 2 (64 - 1) = 2 ^ 63 := rfl
  have hsmall : Nat.pow 2 (32 - 1) = 2 ^ 31 := rfl
  unfold ofDigits Number.ofNat
  split
  next hfits =>
    have hlong : digitsValue digits < 2 ^ 63 := by
      rw [fitsInto_iff, hlarge] at hfits
      omega
    have hint : (Int64.ofNat (digitsValue digits)).toInt = digitsValue digits := Int64.toInt_ofNat_of_lt hlong
    rw [value, hint]
    by_cases hlt : digitsValue digits < 2 ^ 31
    · rw [if_pos hlt, if_pos (fitsInto_iff.2 (by rw [hsmall]; omega))]
      rfl
    · rw [if_neg hlt, if_pos hlong, if_neg (by rw [fitsInto_iff, hsmall]; omega)]
      rfl
  next hfits =>
    have hlong : ¬digitsValue digits < 2 ^ 63 := fun hlt => hfits (fitsInto_iff.2 (by rw [hlarge]; omega))
    have hread : readInteger? digits = some (digitsValue digits : Int) := readInteger?_of_digits false h
    rw [if_neg (by omega), if_neg hlong, value, String.toList_ofList, hread]
    rfl

/-! ## Templates of one literal -/

/-- A template of one literal has its value, and changes nothing. -/
theorem Interpreter.execute_literal (i : Interpreter) {l : Literal} {v : Value} (h : l.value = .ok v) (p : Position) :
    i.execute [.expr (.literal l p)] = (.ok v, i) := by
  have heval : evalExpr i.types i.invoke (.literal l p) = pure v := by
    rw [evalExpr, h]
    rfl
  rw [execute, execBody, execStmt, heval]
  rfl

/-- Decimal digits, of whatever length and with whatever leading zeros, are a template whose value is the integer that
they denote: of 32 bits below 2³¹, of 64 bits from there on below 2⁶³, and large from there on. Its text are the digits
without leading zeros; that of zero is one zero. -/
theorem execute_digits (i : Interpreter) {d : String} (h : IsDigits d.toList) :
    ∃ p n x, compile d = .ok p ∧ d.toNat? = some n ∧ i.execute p = (.ok (.number x), i) ∧
      x.integer? = some (n : Int) ∧
      x.kind = (if n < 2 ^ 31 then .int else if n < 2 ^ 63 then .long else .bigInt) ∧
      (Value.number x).display =
        if ∀ c ∈ d.toList, c = '0' then "0" else String.ofList (d.toList.dropWhile (· == '0')) := by
  have hcuts : Cuts (d.toList ++ []) [(.number, integerPayload d.toList)] [] := cuts_integer h nofun rfl
  rw [List.append_nil, ← Literal.symbol_ofDigits] at hcuts
  obtain ⟨position, hcompile⟩ := compile_literal hcuts
  have hinteger := Number.integer?_ofNat (digitsValue d.toList)
  refine ⟨_, _, _, hcompile, toNat?_of_isDigits h, i.execute_literal (Literal.value_ofDigits h) position, hinteger,
    Number.kind_ofNat _, ?_⟩
  rw [Value.display, Number.display_of_integer? hinteger, naturalText_digitsValue h.2]

/-- More digits than any number of 64 bits has, though the number takes only 32 of them. -/
theorem execute_digits_zeros :
    let i : Interpreter := .fresh .empty 0 .empty .silent
    ∃ p n x, compile "00000000000000000002147483648" = .ok p ∧ "00000000000000000002147483648".toNat? = some n ∧
      i.execute p = (.ok (.number x), i) ∧ x.integer? = some (n : Int) ∧
      x.kind = (if n < 2 ^ 31 then .int else if n < 2 ^ 63 then .long else .bigInt) ∧
      (Value.number x).display = if ∀ c ∈ "00000000000000000002147483648".toList, c = '0' then "0"
        else String.ofList ("00000000000000000002147483648".toList.dropWhile (· == '0')) :=
  execute_digits _ ⟨nofun, List.all_eq_true.1 rfl⟩

end QueryTemplate
