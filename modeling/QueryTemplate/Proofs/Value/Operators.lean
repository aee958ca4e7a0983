import QueryTemplate.Value.Operator

/-!
# What operators see of values

Operators look at the content of numbers, text and truth values. Of other values they see the name of the type and the
text, and whether two of them are the same. So they come to the same results on values that look the same
(`BinaryOp.apply_similar`, `UnaryOp.apply_similar`), and no result is a closure or an object (`BinaryOp.apply_isPlain`,
`UnaryOp.apply_isPlain`).
-/

namespace QueryTemplate

/-- Values that look the same. -/
structure Value.Similar (v w : Value) : Prop where
  typeName : v.typeName = w.typeName
  display : v.display = w.display
  number? : v.number? = w.number?
  string? : v.string? = w.string?
  bool? : v.bool? = w.bool?

/-- Whether a value is neither a closure nor an object. -/
def Value.isPlain : Value → Bool
  | function _ | mapper _ | object _ => false
  | _ => true

variable {v v' w w' : Value}

namespace Value.Similar

theorem kind? (h : v.Similar w) : v.kind? = w.kind? := congrArg (Option.map Number.kind) h.number?

end Value.Similar

/-! ## Results on values that look the same -/

theorem UnaryOp.apply_not (v : Value) : UnaryOp.not.apply v =
    match v.bool? with
    | some b => .ok (.bool (!b))
    | none => .error (.nonBooleanOperand .not v.typeName) := by
  cases v <;> rfl

section

variable (hv : v.Similar v') (hw : w.Similar w')

include hv

theorem Arithmetic.convert_similar {α : Type} (A : Arithmetic α) : A.convert v = A.convert v' := by
  rw [Arithmetic.convert, Arithmetic.convert, hv.number?, hv.display]

theorem NumericKind.negate_similar (kind : NumericKind) : kind.negate v = kind.negate v' := by
  cases kind <;> simp only [negate, Arithmetic.negate, Arithmetic.convert_similar hv]

theorem UnaryOp.apply_similar (op : UnaryOp) : op.apply v = op.apply v' := by
  cases op with
  | neg => simp only [apply, hv.kind?, hv.typeName, NumericKind.negate_similar hv]
  | not => rw [apply_not, apply_not, hv.bool?, hv.typeName]

include hw

theorem NumericKind.apply_similar (kind : NumericKind) (op : BinaryOp) : kind.apply op v w = kind.apply op v' w' := by
  cases kind <;> simp only [apply, Arithmetic.apply, Arithmetic.convert_similar hv, Arithmetic.convert_similar hw]

theorem Value.equal_similar (hs : v.same w = v'.same w') : v.equal w = v'.equal w' := by
  simp only [Value.equal, hv.kind?, hw.kind?, hs, NumericKind.apply_similar hv hw]

end

theorem Value.eq_string {s : String} (h : v.string? = some s) : v = .string s := by
  cases v <;> cases h
  rfl

theorem Value.eq_bool {b : Bool} (h : v.bool? = some b) : v = .bool b := by
  cases v <;> cases h
  rfl

theorem Value.eq_number {n : Number} (h : v.number? = some n) : v = .number n := by
  cases v <;> cases h
  rfl

namespace BinaryOp

/-- Without text or a truth value on the left there is no other operation. -/
theorem applyOther_left (op : BinaryOp) (hs : v.string? = none) (hb : v.bool? = none) :
    op.applyOther v w = .error (op.unsupported v w) := by
  cases v with
  | string => cases hs
  | bool => cases hb
  | _ => cases op <;> rfl

theorem applyOther_string (op : BinaryOp) {s : String} (hs : w.string? = none) (hn : w.number? = none) :
    op.applyOther (.string s) w = .error (op.unsupported (.string s) w) := by
  cases w with
  | string => cases hs
  | number => cases hn
  | _ => cases op <;> rfl

theorem applyOther_bool (op : BinaryOp) {b : Bool} (hb : w.bool? = none) :
    op.applyOther (.bool b) w = .error (op.unsupported (.bool b) w) := by
  cases w with
  | bool => cases hb
  | _ => cases op <;> rfl

theorem unsupported_similar (hv : v.Similar v') (hw : w.Similar w') (op : BinaryOp) :
    op.unsupported v w = op.unsupported v' w' := by
  rw [unsupported, unsupported, hv.typeName, hw.typeName]

theorem applyOther_similar (hv : v.Similar v') (hw : w.Similar w') (op : BinaryOp) :
    op.applyOther v w = op.applyOther v' w' := by
  have hfault := unsupported_similar hv hw op
  cases hs : v.string? with
  | some s =>
    obtain rfl := Value.eq_string hs
    obtain rfl := Value.eq_string (hv.string?.symm.trans hs)
    cases ht : w.string? with
    | some t => rw [Value.eq_string ht, Value.eq_string (hw.string?.symm.trans ht)]
    | none =>
      cases hn : w.number? with
      | some n => rw [Value.eq_number hn, Value.eq_number (hw.number?.symm.trans hn)]
      | none =>
        rw [applyOther_string op ht hn, hfault, applyOther_string op (hw.string? ▸ ht) (hw.number? ▸ hn)]
  | none =>
    cases hb : v.bool? with
    | some b =>
      obtain rfl := Value.eq_bool hb
      obtain rfl := Value.eq_bool (hv.bool?.symm.trans hb)
      cases hc : w.bool? with
      | some c => rw [Value.eq_bool hc, Value.eq_bool (hw.bool?.symm.trans hc)]
      | none => rw [applyOther_bool op hc, hfault, applyOther_bool op (hw.bool? ▸ hc)]
    | none => rw [applyOther_left op hs hb, hfault, applyOther_left op (hv.string? ▸ hs) (hv.bool? ▸ hb)]

theorem applyUnequal_similar (hv : v.Similar v') (hw : w.Similar w') (op : BinaryOp) :
    op.applyUnequal v w = op.applyUnequal v' w' := by
  simp only [applyUnequal, hv.string?, hw.string?, hv.display, hw.display, hv.kind?, hw.kind?,
    NumericKind.apply_similar hv hw, applyOther_similar hv hw]

/-- Operators do not tell values apart that look the same, if `==` does not. -/
theorem apply_similar (hv : v.Similar v') (hw : w.Similar w') (hs : v.same w = v'.same w') (op : BinaryOp) :
    op.apply v w = op.apply v' w' := by
  cases op <;> simp only [apply, Value.equal_similar hv hw hs, applyUnequal_similar hv hw]

end BinaryOp

/-! ## Results are plain -/

theorem Arithmetic.operate_isPlain {α : Type} (A : Arithmetic α) {op : BinaryOp} {a b : α}
    (h : A.operate op a b = .ok v) : v.isPlain = true := by
  have hmap : ∀ {r : Except EvalFault α}, r.map (Value.number ∘ A.wrap) = .ok v → v.isPlain = true := by
    intro r hr
    cases r with
    | error => cases hr
    | ok a =>
      cases hr
      rfl
  cases op
  case add | sub | mul | div => exact hmap h
  all_goals
    cases h
    rfl

theorem NumericKind.apply_isPlain {kind : NumericKind} {op : BinaryOp} (h : kind.apply op v w = .ok v') :
    v'.isPlain = true := by
  have hany : ∀ {α : Type} (A : Arithmetic α), A.apply op v w = .ok v' → v'.isPlain = true := by
    intro α A h
    simp only [Arithmetic.apply, bind, Except.bind] at h
    split at h
    · cases h
    split at h
    · cases h
    exact A.operate_isPlain h
  cases kind <;> exact hany _ h

theorem NumericKind.negate_isPlain {kind : NumericKind} (h : kind.negate v = .ok w) : w.isPlain = true := by
  have hany : ∀ {α : Type} (A : Arithmetic α), A.negate v = .ok w → w.isPlain = true := by
    intro α A h
    simp only [Arithmetic.negate, bind, Except.bind] at h
    split at h
    · cases h
    split at h
    · cases h
    cases h
    rfl
  cases kind <;> exact hany _ h

theorem UnaryOp.apply_isPlain {op : UnaryOp} (h : op.apply v = .ok w) : w.isPlain = true := by
  cases op with
  | neg =>
    simp only [apply] at h
    split at h
    · exact NumericKind.negate_isPlain h
    · cases h
  | not =>
    simp only [apply] at h
    split at h <;> cases h
    rfl

theorem Value.repeatText_isPlain {s : String} {count : Int} {otherwise : EvalFault}
    (h : repeatText s count otherwise = .ok v) : v.isPlain = true := by
  unfold repeatText at h
  split at h
  · split at h
    · cases h
      rfl
    · cases h
  · cases h

theorem BinaryOp.applyOther_isPlain {op : BinaryOp} (h : op.applyOther v w = .ok v') : v'.isPlain = true := by
  unfold applyOther at h
  split at h
  · exact Value.repeatText_isPlain h
  · exact Value.repeatText_isPlain h
  · split at h <;> cases h
    rfl
  · split at h <;> cases h
    rfl
  · cases h

theorem BinaryOp.apply_isPlain {op : BinaryOp} (h : op.apply v w = .ok v') : v'.isPlain = true := by
  have hunequal : op.applyUnequal v w = .ok v' → v'.isPlain = true := by
    intro h
    unfold applyUnequal at h
    split at h
    · cases h
      rfl
    split at h
    · exact NumericKind.apply_isPlain h
    · exact applyOther_isPlain h
  cases op
  case eq | ne =>
    cases h
    rfl
  all_goals exact hunequal h

end QueryTemplate
