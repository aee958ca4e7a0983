import Mathlib.Data.List.TakeWhile
import QueryTemplate.Value.Number

/-!
# The text of a floating-point number is that of a decimal

A finite number is written with digits before and behind a point, and such a text is read as a decimal, whose scale is
the number of digits behind the point (`Decimal.ofString?_digits`). That scale fits into its bits: the shortest digits
of a number of either format end not much later than all its digits do (`Magnitude.le_exponent_shortest`). So of the
floating-point numbers just those are no decimals that are not finite (`isSome_ofString?_double`).
-/

namespace QueryTemplate

/-! ## Reading digits -/

/-- Digits, one at least. -/
def AreDigits (cs : List Char) : Prop := cs ≠ [] ∧ ∀ c ∈ cs, c.isDigit = true

section Digits

variable {cs ws fs : List Char}

theorem areDigits_naturalDigits (n : Nat) : AreDigits (naturalDigits n) := by
  rw [naturalDigits_eq_toDigits]
  exact ⟨Nat.toDigits_ne_nil, fun c hc => Nat.isDigit_of_mem_toDigits (by decide) (by decide) hc⟩

theorem areDigits_zeros {n : Nat} (hn : 0 < n) : AreDigits (List.replicate n '0') :=
  ⟨by simpa using Nat.ne_of_gt hn, fun c hc => by rw [(List.mem_replicate.1 hc).2]; rfl⟩

theorem AreDigits.append_of_forall (h : AreDigits ws) (hf : ∀ c ∈ fs, c.isDigit = true) : AreDigits (ws ++ fs) :=
  ⟨List.append_ne_nil_of_left_ne_nil h.1 _, List.forall_mem_append.2 ⟨h.2, hf⟩⟩

/-- A digit is none of the other characters of a number. -/
theorem ne_of_isDigit {c : Char} (hc : c.isDigit = true) :
    c ≠ '.' ∧ c ≠ '_' ∧ c ≠ '-' ∧ c ≠ '+' ∧ Decimal.isExponentMark c = false := by
  refine ⟨?_, ?_, ?_, ?_, ?_⟩
  · rintro rfl
    cases hc
  · rintro rfl
    cases hc
  · rintro rfl
    cases hc
  · rintro rfl
    cases hc
  · simp only [Decimal.isExponentMark, Bool.or_eq_false_iff, beq_eq_false_iff_ne]
    constructor
    · rintro rfl
      cases hc
    · rintro rfl
      cases hc

theorem digitsWithUnderscores?_of_digits (h : AreDigits cs) : digitsWithUnderscores? cs = some (digitsValue cs) := by
  obtain ⟨hne, hdigits⟩ := h
  obtain ⟨c, cs, rfl⟩ := List.exists_cons_of_ne_nil hne
  have hc := (ne_of_isDigit (hdigits c List.mem_cons_self)).2.1
  have hall : (c :: cs).all (fun c => c.isDigit || c == '_') = true :=
    List.all_eq_true.2 fun d hd => by rw [hdigits d hd, Bool.true_or]
  rw [digitsWithUnderscores?, if_pos hall, List.filter_eq_self.2 hdigits]
  · nofun
  · intro ds he
    exact hc (List.cons.inj he).1

/-- The sign of a number. -/
def signCharacters (negative : Bool) : List Char := if negative then ['-'] else []

theorem readInteger?_of_digits (negative : Bool) (h : AreDigits cs) :
    readInteger? (signCharacters negative ++ cs) =
      some (if negative then -(digitsValue cs : Int) else digitsValue cs) := by
  cases negative with
  | true =>
    show readInteger? ('-' :: cs) = _
    rw [readInteger?, digitsWithUnderscores?_of_digits h]
    rfl
  | false =>
    show readInteger? cs = _
    obtain ⟨c, cs, rfl⟩ := List.exists_cons_of_ne_nil h.1
    obtain ⟨-, -, hminus, hplus, -⟩ := ne_of_isDigit (h.2 c List.mem_cons_self)
    rw [readInteger?, digitsWithUnderscores?_of_digits h]
    · rfl
    · intro ds he
      exact hminus (List.cons.inj he).1
    · intro ds he
      exact hplus (List.cons.inj he).1

end Digits

namespace Decimal

variable {ws fs : List Char}

/-- What stands before the point of a number with digits. -/
theorem ne_point_of_mem (negative : Bool) (hw : AreDigits ws) {c : Char} (hc : c ∈ signCharacters negative ++ ws) :
    c ≠ '.' ∧ isExponentMark c = false := by
  obtain hc | hc := List.mem_append.1 hc
  · have hsign : c = '-' := by
      cases negative with
      | true => exact List.mem_singleton.1 hc
      | false => cases hc
    rw [hsign]
    decide
  · exact ⟨(ne_of_isDigit (hw.2 c hc)).1, (ne_of_isDigit (hw.2 c hc)).2.2.2.2⟩

theorem not_isExponentMark_of_mem (negative : Bool) (hw : AreDigits ws) (hf : AreDigits fs) {c : Char}
    (hc : c ∈ signCharacters negative ++ ws ++ '.' :: fs) : (!isExponentMark c) = true := by
  rw [Bool.not_eq_true']
  obtain hc | hc := List.mem_append.1 hc
  · exact (ne_point_of_mem negative hw hc).2
  · obtain rfl | hc := List.mem_cons.1 hc
    · rfl
    · exact (ne_of_isDigit (hf.2 c hc)).2.2.2.2

theorem splitMantissa_digits (negative : Bool) (hw : AreDigits ws) (hf : AreDigits fs) :
    splitMantissa (signCharacters negative ++ ws ++ '.' :: fs) =
      (signCharacters negative ++ ws ++ fs, fs.length) := by
  have hpoint : ∀ c ∈ signCharacters negative ++ ws, (c != '.') = true :=
    fun c hc => bne_iff_ne.2 (ne_point_of_mem negative hw hc).1
  obtain ⟨f, fs, rfl⟩ := List.exists_cons_of_ne_nil hf.1
  have hplaces : (f :: fs).countP (· != '_') = (f :: fs).length :=
    List.countP_eq_length.2 fun c hc => bne_iff_ne.2 (ne_of_isDigit (hf.2 c hc)).2.1
  rw [splitMantissa, List.dropWhile_append_of_pos hpoint, List.takeWhile_append_of_pos hpoint]
  simp [hplaces]

/-- Without a power of ten the scale is the number of places. -/
theorem ofString?_of_places {s : String} {digits : List Char} {places : Nat} (hne : s.toList.isEmpty = false)
    (hmark : ∀ c ∈ s.toList, (!isExponentMark c) = true) (hsplit : splitMantissa s.toList = (digits, places))
    (hscale : fitsInto scaleBits places = true) :
    ofString? s = (readInteger? digits).map fun n => ⟨n, places⟩ := by
  have hmantissa : s.toList.takeWhile (!isExponentMark ·) = s.toList := List.takeWhile_eq_self_iff.2 hmark
  have hpower : s.toList.dropWhile (!isExponentMark ·) = [] := List.dropWhile_eq_nil_iff.2 hmark
  have hzero : ∀ (a : Int) (f : Int → Option Decimal), (some a >>= f) = f a := fun _ _ => rfl
  have hsub : (places : Int) - 0 = places := Int.sub_zero _
  unfold ofString?
  dsimp only
  rw [hmantissa, hpower, hne, hsplit]
  dsimp only
  -- Rewriting keeps the bound on the scale from being computed.
  rw [hzero, if_neg Bool.false_ne_true, hsub, hscale, if_neg (by decide)]
  cases readInteger? digits <;> rfl

/-- Digits with a point among them are read as the decimal with all of them and as many places as stand behind it. -/
theorem ofString?_digits (negative : Bool) (hw : AreDigits ws) (hf : AreDigits fs)
    (hscale : fitsInto scaleBits fs.length = true) :
    ofString? (String.ofList (signCharacters negative ++ ws ++ '.' :: fs)) =
      some ⟨if negative then -(digitsValue (ws ++ fs) : Int) else digitsValue (ws ++ fs), fs.length⟩ := by
  have hread := readInteger?_of_digits negative (hw.append_of_forall hf.2)
  rw [← List.append_assoc] at hread
  rw [ofString?_of_places (by simp) (fun c hc => not_isExponentMark_of_mem negative hw hf (by simpa using hc))
    (by rw [String.toList_ofList, splitMantissa_digits negative hw hf]) hscale, hread]
  rfl

end Decimal

/-! ## Positional notation -/

namespace Floating

theorem sign_eq (negative : Bool) : sign negative = String.ofList (signCharacters negative) := by
  cases negative <;> rfl

theorem withPoint_of_point (cs ds : List Char) :
    withPoint (String.ofList (cs ++ '.' :: ds)) = String.ofList (cs ++ '.' :: ds) :=
  if_pos (by simp)

theorem withPoint_of_notMem {cs : List Char} (h : '.' ∉ cs) :
    withPoint (String.ofList cs) = String.ofList (cs ++ '.' :: ['0']) := by
  rw [withPoint, if_neg (by simpa using h), String.ofList_append]

/-- The text has digits before and behind a point. Behind it there are as many as the exponent asks for, or one. -/
theorem Digits.withPoint_positional (negative : Bool) (d : Digits) : ∃ ws fs, AreDigits ws ∧ AreDigits fs ∧
    withPoint (sign negative ++ d.positional) = String.ofList (signCharacters negative ++ ws ++ '.' :: fs) ∧
    (fs.length : Int) ≤ max 1 (-d.exponent) := by
  have hdigits := areDigits_naturalDigits d.digits
  unfold Digits.positional
  dsimp only
  rw [naturalText, String.length_ofList, String.toList_ofList, sign_eq]
  generalize naturalDigits d.digits = ds at hdigits
  split
  next hplaces =>
    have hws : AreDigits (ds ++ List.replicate d.exponent.toNat '0') :=
      hdigits.append_of_forall fun c hc => by rw [(List.mem_replicate.1 hc).2]; rfl
    refine ⟨_, ['0'], hws, areDigits_zeros Nat.one_pos, ?_, Int.le_max_left ..⟩
    rw [zeros, ← String.ofList_append, ← String.ofList_append, withPoint_of_notMem]
    exact fun hmem => (Decimal.ne_point_of_mem negative hws hmem).1 rfl
  next hplaces =>
    split
    next hlt =>
      have htake : AreDigits (ds.take (ds.length - (-d.exponent).toNat)) :=
        ⟨fun hnil => (List.take_eq_nil_iff.1 hnil).elim (by omega) hdigits.1,
          fun c hc => hdigits.2 c (List.mem_of_mem_take hc)⟩
      have hdrop : AreDigits (ds.drop (ds.length - (-d.exponent).toNat)) :=
        ⟨fun hnil => by
          have := List.drop_eq_nil_iff.1 hnil
          omega, fun c hc => hdigits.2 c (List.mem_of_mem_drop hc)⟩
      refine ⟨_, _, htake, hdrop, ?_, by rw [List.length_drop]; omega⟩
      have hpoint : "." = String.ofList ['.'] := rfl
      rw [hpoint, ← String.ofList_append, ← String.ofList_append, ← String.ofList_append, List.append_assoc,
        List.singleton_append, ← List.append_assoc, withPoint_of_point]
    next hge =>
      have hfs : AreDigits (List.replicate ((-d.exponent).toNat - ds.length) '0' ++ ds) :=
        ⟨List.append_ne_nil_of_right_ne_nil _ hdigits.1, List.forall_mem_append.2
          ⟨fun c hc => by rw [(List.mem_replicate.1 hc).2]; rfl, hdigits.2⟩⟩
      refine ⟨['0'], _, areDigits_zeros Nat.one_pos, hfs, ?_, by rw [List.length_append, List.length_replicate]; omega⟩
      have hpoint : "0." = String.ofList ['0', '.'] := rfl
      rw [hpoint, zeros, ← String.ofList_append, ← String.ofList_append, ← String.ofList_append]
      have hcons : signCharacters negative ++
          (['0', '.'] ++ List.replicate ((-d.exponent).toNat - ds.length) '0' ++ ds) =
          signCharacters negative ++ ['0'] ++
            '.' :: (List.replicate ((-d.exponent).toNat - ds.length) '0' ++ ds) := by simp
      rw [hcons, withPoint_of_point]

/-! ## Exponents -/

namespace Magnitude

theorem le_exponent_trimZeros (fuel : Nat) (d : Digits) : d.exponent ≤ (trimZeros fuel d).exponent := by
  induction fuel generalizing d with
  | zero => exact Int.le_refl _
  | succ fuel ih =>
    rw [trimZeros]
    split
    · exact Int.le_trans (Int.le_add_of_nonneg_right (by decide)) (ih _)
    · exact Int.le_refl _

theorem Window.le_magnitudeOfTen {w : Window} {k : Nat} (hk : 0 < k) (hw : w.denominator < Nat.pow 10 k) :
    -(k : Int) ≤ w.magnitudeOfTen := by
  have hcount : digitCount (w.denominator / w.value) ≤ k :=
    (digitCount_le_iff hk).2 (Nat.lt_of_le_of_lt (Nat.div_le_self ..) hw)
  unfold magnitudeOfTen
  split
  · omega
  · dsimp only
    split <;> omega

/-- The denominators of the window have not many more digits than the binary exponent asks for. -/
theorem denominator_window_lt (m : Magnitude) : m.window.denominator < Nat.pow 10 ((-m.exponent).toNat + 1) := by
  show 4 * 2 ^ (-m.exponent).toNat < 10 ^ ((-m.exponent).toNat + 1)
  have hle : 2 ^ (-m.exponent).toNat ≤ 10 ^ (-m.exponent).toNat := Nat.pow_le_pow_left (by decide) _
  have hpos : 0 < 2 ^ (-m.exponent).toNat := Nat.pow_pos (by decide)
  rw [Nat.pow_succ]
  omega

/-- The shortest digits end not much later than all digits do. -/
theorem le_exponent_shortest (m : Magnitude) : -((-m.exponent).toNat + 18 : Int) ≤ m.shortest.exponent := by
  unfold shortest
  dsimp only
  refine Int.le_trans ?_ (le_exponent_trimZeros ..)
  cases hfound : (List.range enoughDigits).findSome? fun n => m.window.withDigits? (n + 1) with
  | none =>
    rw [Option.getD_none, exactDigits]
    dsimp only
    omega
  | some d =>
    obtain ⟨n, hn, hd⟩ := List.exists_of_findSome?_eq_some hfound
    rw [Window.withDigits?] at hd
    obtain ⟨k, -, rfl⟩ := Option.map_eq_some_iff.1 hd
    have hlt : n < 17 := List.mem_range.1 hn
    have hmagnitude := Window.le_magnitudeOfTen (Nat.succ_pos _) m.denominator_window_lt
    rw [Option.getD_some]
    dsimp only
    push_cast at hmagnitude ⊢
    omega

end Magnitude

/-- The exponents of a format are not below that of the least number. -/
theorem Format.le_exponent_decode {format : Format} {bits : Nat} {negative : Bool} {m : Magnitude}
    (h : format.decode bits = .finite negative m) :
    (2 - Nat.pow 2 (format.exponentBits - 1) - format.fractionBits : Int) ≤ m.exponent := by
  unfold decode at h
  dsimp only at h
  split at h
  · split at h <;> cases h
  split at h
  · split at h
    · cases h
    · obtain ⟨-, rfl⟩ := Decoded.finite.inj h
      exact Int.le_refl _
  · obtain ⟨-, rfl⟩ := Decoded.finite.inj h
    exact Int.le_add_of_nonneg_right (Int.natCast_nonneg _)

namespace Decoded

/-- Whether it stands for a number, and that is not infinite. -/
def isFinite : Decoded → Bool
  | nan | infinite _ => false
  | zero _ | finite .. => true

/-- The text of a number that is not too small is that of a decimal if and only if the number is finite. -/
theorem isSome_ofString?_display {d : Decoded}
    (hd : ∀ negative m, d = .finite negative m → -Nat.pow 2 62 ≤ m.exponent) :
    (Decimal.ofString? d.display).isSome = d.isFinite := by
  cases d with
  | nan => decide
  | infinite negative => cases negative <;> decide
  | zero negative => cases negative <;> decide
  | finite negative m =>
    obtain ⟨ws, fs, hws, hfs, htext, hlength⟩ := m.shortest.withPoint_positional negative
    have hexponent := m.le_exponent_shortest
    have hbound : -(2 ^ 62 : Int) ≤ m.exponent := hd negative m rfl
    have hscale : fitsInto Decimal.scaleBits fs.length = true := by
      rw [fitsInto_iff]
      show -(2 ^ 63 : Int) ≤ fs.length ∧ (fs.length : Int) < 2 ^ 63
      omega
    show (Decimal.ofString? (withPoint (sign negative ++ m.shortest.positional))).isSome = true
    rw [htext, Decimal.ofString?_digits negative hws hfs hscale]
    rfl

end Decoded

end Floating

open Floating

/-- Whether a number is finite. Of the kinds only those of floating-point numbers have others. -/
def Number.isFinite : Number → Bool
  | float x => x.decode.isFinite
  | double x => x.decode.isFinite
  | int _ | long _ | bigInt _ | decimal _ => true

theorem isSome_ofString?_single (x : Single) :
    (Decimal.ofString? (Number.float x).display).isSome = (Number.float x).isFinite := by
  refine Decoded.isSome_ofString?_display fun negative m hm => Int.le_trans ?_ (Format.le_exponent_decode hm)
  decide

theorem isSome_ofString?_double (x : Double) :
    (Decimal.ofString? (Number.double x).display).isSome = (Number.double x).isFinite := by
  refine Decoded.isSome_ofString?_display fun negative m hm => Int.le_trans ?_ (Format.le_exponent_decode hm)
  decide

end QueryTemplate
