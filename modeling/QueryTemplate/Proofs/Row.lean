import Mathlib
import QueryTemplate.Row
import QueryTemplate.Proofs.Value.Displayed

/-!
# What columns read

The value of a column is null if and only if its cell is null or holds what columns of that type do not read
(`Row.value_eq_null_iff`). Columns of text read everything. The others go by the kind of what is in the cell, with two
exceptions: a large integer is not read as one of 32 bits, and as a decimal just what has the text of one is read. Among
numbers these are the finite ones, and none among the values that are neither numbers nor text.
-/

namespace QueryTemplate

/-! ## What has the text of a decimal -/

theorem isDigit_of_digitsWithUnderscores? {cs : List Char} {n : Nat} (h : digitsWithUnderscores? cs = some n) :
    ∀ c ∈ cs, c.isDigit = true ∨ c = '_' := by
  unfold digitsWithUnderscores? at h
  split at h
  · cases h
  · cases h
  · split at h
    next hall => exact fun c hc => by simpa using List.all_eq_true.1 hall c hc
    next => cases h

namespace Decimal

/-- What an integer with an optional point is made of. -/
def isMantissaChar (c : Char) : Bool := c.isDigit || c == '_' || c == '-' || c == '+' || c == '.'

theorem isMantissaChar_of_readInteger? {cs : List Char} {n : Int} (h : readInteger? cs = some n) :
    ∀ c ∈ cs, isMantissaChar c = true := by
  have hdigits : ∀ {ds : List Char} {m : Nat}, digitsWithUnderscores? ds = some m →
      ∀ c ∈ ds, isMantissaChar c = true := fun hm c hc => by
    rcases isDigit_of_digitsWithUnderscores? hm c hc with hc | rfl
    · simp [isMantissaChar, hc]
    · rfl
  unfold readInteger? at h
  split at h
  · obtain ⟨k, hk, -⟩ := Option.map_eq_some_iff.1 h
    obtain ⟨m, hm, -⟩ := Option.bind_eq_some_iff.1 hk
    exact List.forall_mem_cons.2 ⟨rfl, hdigits hm⟩
  · obtain ⟨m, hm, -⟩ := Option.map_eq_some_iff.1 h
    exact List.forall_mem_cons.2 ⟨rfl, hdigits hm⟩
  · obtain ⟨m, hm, -⟩ := Option.map_eq_some_iff.1 h
    exact hdigits hm

/-- Nothing but a point is left out. -/
theorem mem_splitMantissa {cs : List Char} {c : Char} (h : c ∈ cs) (hc : c ≠ '.') : c ∈ (splitMantissa cs).1 := by
  have hsplit := List.takeWhile_append_dropWhile (p := (· != '.')) (l := cs)
  unfold splitMantissa
  split
  next d hdrop =>
    rw [hdrop] at hsplit
    rw [← hsplit, List.mem_append, List.mem_singleton] at h
    rw [← hsplit, List.dropLast_concat]
    refine h.resolve_right fun hd => ?_
    have := List.head?_dropWhile_not (· != '.') cs
    simp [hdrop, ← hd, hc] at this
  next d places hne hdrop =>
    rw [hdrop] at hsplit
    rw [← hsplit, List.mem_append, List.mem_cons] at h
    rw [List.mem_append]
    rcases h with h | rfl | h
    · exact .inl h
    · have := List.head?_dropWhile_not (· != '.') cs
      simp [hdrop, hc] at this
    · exact .inr h
  next => exact h

/-- Nothing else stands before the power of ten of a decimal. -/
theorem isMantissaChar_of_ofString? {s : String} {d : Decimal} (h : ofString? s = some d) :
    ∀ c ∈ s.toList.takeWhile (!isExponentMark ·), isMantissaChar c = true := by
  intro c hc
  cases hread : readInteger? (splitMantissa (s.toList.takeWhile (!isExponentMark ·))).1 with
  | none =>
    unfold ofString? at h
    dsimp only at h
    split at h <;> simp [hread] at h
  | some n =>
    by_cases hpoint : c = '.'
    · rw [hpoint]
      rfl
    · exact isMantissaChar_of_readInteger? hread c (mem_splitMantissa hc hpoint)

/-- The text of an integer is that of a decimal. -/
theorem ofString?_integerText (n : Int) : ofString? (integerText n) = some (.ofInt n) := by
  have hdigits := areDigits_naturalDigits n.natAbs
  have htext : (integerText n).toList = signCharacters (decide (n < 0)) ++ naturalDigits n.natAbs := by
    unfold integerText
    split
    next h => simp [signCharacters, h, naturalText]
    next h => simp [signCharacters, h, naturalText]
  have hmark : ∀ c ∈ (integerText n).toList, (!isExponentMark c) = true := fun c hc => by
    rw [htext] at hc
    rw [(ne_point_of_mem _ hdigits hc).2]
    rfl
  have hsplit : splitMantissa (integerText n).toList = ((integerText n).toList, 0) := by
    have hdrop : (integerText n).toList.dropWhile (· != '.') = [] :=
      List.dropWhile_eq_nil_iff.2 fun c hc => bne_iff_ne.2 (ne_point_of_mem _ hdigits (htext ▸ hc)).1
    rw [splitMantissa, hdrop]
  have hne : (integerText n).toList.isEmpty = false := by
    simp [htext, hdigits.1]
  have hvalue : digitsValue (naturalDigits n.natAbs) = n.natAbs := by
    rw [naturalDigits_eq_toDigits]
    exact Nat.ofDigitChars_ten_toDigits
  have hsign : (if decide (n < 0) then -(n.natAbs : Int) else n.natAbs) = n := by
    by_cases h : n < 0
    · rw [if_pos (decide_eq_true h)]
      omega
    · rw [if_neg (by rw [decide_eq_false h]; decide)]
      omega
  rw [ofString?_of_places hne hmark hsplit (by decide), htext, readInteger?_of_digits _ hdigits, hvalue, hsign]
  rfl

end Decimal

namespace Value

/-- Finite numbers and the texts of decimals are read as decimals. -/
theorem isSome_asDecimal? (v : Value) : v.asDecimal?.isSome = true ↔
    (∃ n, v = .number n ∧ n.isFinite = true) ∨ ∃ s, v = .string s ∧ (Decimal.ofString? s).isSome = true := by
  -- What is written with another character before a power of ten could begin is not read.
  have other : ∀ {w : Value} {c : Char}, c ∈ w.display.toList.takeWhile (!Decimal.isExponentMark ·) →
      Decimal.isMantissaChar c = false → w.asDecimal? = Decimal.ofString? w.display → ¬w.asDecimal?.isSome = true :=
    fun hc hother hdecimal hsome => by
      rw [hdecimal] at hsome
      obtain ⟨d, hd⟩ := Option.isSome_iff_exists.1 hsome
      rw [Decimal.isMantissaChar_of_ofString? hd _ hc] at hother
      cases hother
  cases v with
  | null => simp [asDecimal?]
  | number n =>
    have hfinite : (asDecimal? (.number n)).isSome = n.isFinite := by
      cases n with
      | int | long | decimal => rfl
      | bigInt n =>
        show (Decimal.ofString? (integerText n)).isSome = true
        rw [Decimal.ofString?_integerText]
        rfl
      | float x => exact isSome_ofString?_single x
      | double x => exact isSome_ofString?_double x
    simp [hfinite]
  | string s => simp [asDecimal?, display]
  | bool b => exact iff_of_false (by cases b <;> decide) (by simp)
  | bytes b =>
    refine iff_of_false (other (c := 'x') ?_ rfl rfl) (by simp)
    simp [display, Decimal.isExponentMark]
  | function | mapper | type | object =>
    refine iff_of_false (other (c := '<') ?_ rfl rfl) (by simp)
    simp [display, Decimal.isExponentMark]

end Value

/-! ## What columns read -/

namespace ColumnType

/-- What columns of a type read. -/
def Reads (t : ColumnType) (v : Value) : Prop :=
  match t with
  | char | varchar | longVarchar | date | time | timestamp | array | other => v ≠ .null
  | numeric | decimal =>
    (∃ n, v = .number n ∧ n.isFinite = true) ∨ ∃ s, v = .string s ∧ (Decimal.ofString? s).isSome = true
  | bit => ∃ b, v = .bool b
  | tinyInt | smallInt | integer =>
    (∃ n, v = .number (.int n)) ∨ ∃ n, v = .number (.long n) ∧ -2 ^ 31 ≤ n.toInt ∧ n.toInt < 2 ^ 31
  | bigInt => (∃ n, v = .number (.int n)) ∨ ∃ n, v = .number (.long n)
  | real | float | double => (∃ x, v = .number (.float x)) ∨ ∃ x, v = .number (.double x)
  | binary | varBinary | longVarBinary | blob => (∃ b, v = .bytes b) ∨ ∃ s, v = .string s
  | null => False

theorem not_reads_null (t : ColumnType) : ¬t.Reads .null := by
  cases t <;> simp [Reads]

end ColumnType

namespace Value

theorem isSome_asText? (v : Value) : v.asText?.isSome = true ↔ v ≠ .null := by
  cases v <;> simp [asText?, isNull]

theorem isSome_bool? (v : Value) : v.bool?.isSome = true ↔ ∃ b, v = .bool b := by
  cases v <;> simp [bool?]

theorem isSome_asInt? (v : Value) : v.asInt?.isSome = true ↔
    (∃ n, v = .number (.int n)) ∨ ∃ n, v = .number (.long n) ∧ -2 ^ 31 ≤ n.toInt ∧ n.toInt < 2 ^ 31 := by
  cases v with
  | number n =>
    cases n with
    | long n =>
      have hbound : Nat.pow 2 (32 - 1) = 2 ^ 31 := rfl
      have hfits : (fitsInto 32 n.toInt = true) ↔ -2 ^ 31 ≤ n.toInt ∧ n.toInt < 2 ^ 31 := by
        rw [fitsInto_iff, hbound]
        norm_cast
      simp [asInt?, hfits]
    | _ => simp [asInt?]
  | _ => simp [asInt?]

theorem isSome_asLong? (v : Value) : v.asLong?.isSome = true ↔
    (∃ n, v = .number (.int n)) ∨ ∃ n, v = .number (.long n) := by
  cases v with
  | number n => cases n <;> simp [asLong?]
  | _ => simp [asLong?]

theorem isSome_asFloat? (v : Value) : v.asFloat?.isSome = true ↔
    (∃ x, v = .number (.float x)) ∨ ∃ x, v = .number (.double x) := by
  cases v with
  | number n => cases n <;> simp [asFloat?]
  | _ => simp [asFloat?]

theorem isSome_asDouble? (v : Value) : v.asDouble?.isSome = true ↔
    (∃ x, v = .number (.float x)) ∨ ∃ x, v = .number (.double x) := by
  cases v with
  | number n => cases n <;> simp [asDouble?]
  | _ => simp [asDouble?]

theorem isSome_asBytes? (v : Value) : v.asBytes?.isSome = true ↔ (∃ b, v = .bytes b) ∨ ∃ s, v = .string s := by
  cases v <;> simp [asBytes?]

end Value

namespace Column

/-- The accessor of the column's type sees just what columns of the type read. -/
theorem isSome_read? (c : Column) : c.read?.isSome = true ↔ c.type.Reads c.cell := by
  obtain ⟨name, type, v⟩ := c
  cases type with
  | char | varchar | longVarchar | date | time | timestamp | array | other =>
    simp only [read?, Option.isSome_map, Value.isSome_asText?, ColumnType.Reads]
  | numeric | decimal => simp only [read?, Option.isSome_map, Value.isSome_asDecimal?, ColumnType.Reads]
  | bit => simp only [read?, Option.isSome_map, Value.isSome_bool?, ColumnType.Reads]
  | tinyInt | smallInt | integer => simp only [read?, Option.isSome_map, Value.isSome_asInt?, ColumnType.Reads]
  | bigInt => simp only [read?, Option.isSome_map, Value.isSome_asLong?, ColumnType.Reads]
  | real | float => simp only [read?, Option.isSome_map, Value.isSome_asFloat?, ColumnType.Reads]
  | double => simp only [read?, Option.isSome_map, Value.isSome_asDouble?, ColumnType.Reads]
  | binary | varBinary | longVarBinary | blob =>
    simp only [read?, Option.isSome_map, Value.isSome_asBytes?, ColumnType.Reads]
  | null => simp only [read?, Option.isSome_none, Bool.false_eq_true, ColumnType.Reads]

/-- No accessor sees a null. -/
theorem ne_null_of_read? {c : Column} {v : Value} (h : c.read? = some v) : v ≠ .null := by
  rintro rfl
  unfold read? at h
  split at h
  case h_23 => cases h
  all_goals
    obtain ⟨a, -, ha⟩ := Option.map_eq_some_iff.1 h
    cases ha

theorem value_null_iff_read? (c : Column) : c.value = .null ↔ c.read? = none := by
  unfold value
  cases h : c.read? with
  | none => exact iff_of_true rfl rfl
  | some v => exact iff_of_false (ne_null_of_read? h) nofun

end Column

/-- The value of a column is null if and only if its cell is, or its type does not read what is in the cell. -/
theorem Row.value_eq_null_iff (row : Row) (k : Fin row.length) :
    row[k].value = .null ↔ row[k].cell = .null ∨ ¬row[k].type.Reads row[k].cell := by
  generalize row[k] = c
  rw [Column.value_null_iff_read?, ← Option.not_isSome_iff_eq_none, Column.isSome_read?]
  constructor
  · exact .inr
  · rintro (hnull | hreads)
    · rw [hnull]
      exact ColumnType.not_reads_null c.type
    · exact hreads

/-- An integer of more than 32 bits in a column of such integers is not read, though it is not null. -/
theorem Row.long_in_integer_column :
    let row : Row := [⟨"n", .integer, .number (.long 2147483648)⟩]
    ¬∀ k : Fin row.length, row[k].type ≠ .null → (row[k].value = .null ↔ row[k].cell = .null) := by
  intro row h
  have hvalue : row[(0 : Fin row.length)].value = .null := rfl
  cases (h 0 nofun).1 hvalue

end QueryTemplate
