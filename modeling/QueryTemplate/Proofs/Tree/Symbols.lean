import QueryTemplate.Proofs.Tree.Reading

/-!
# The symbols of an expression

A symbol is a token without its place. `Expr.symbols` writes a tree down as symbols from left to right and adds no
parentheses, so it can be read back only if the tree keeps to the precedence of the operators (`Expr.WellRanked`).
`Cursor.Reads` says which symbols lie between two cursors.
-/

namespace QueryTemplate

/-- A token without its place. -/
abbrev Symbol := TokenKind × Payload

/-- The symbol of a token. -/
def Token.symbol (t : Token) : Symbol := (t.kind, t.payload)

/-- A token without a place, for a symbol. -/
def Token.ofSymbol (s : Symbol) : Token := ⟨s.1, s.2, .nowhere⟩

/-- A symbol that its kind determines. -/
abbrev TokenKind.bare (k : TokenKind) : Symbol := (k, .empty)

/-- The symbol of a name. -/
abbrev Ident.symbol (i : Ident) : Symbol := (.identifier, .text i.name)

/-- The symbol of a literal. -/
def Literal.symbol : Literal → Symbol
  | .null => TokenKind.nullWord.bare
  | .bool true => TokenKind.trueWord.bare
  | .bool false => TokenKind.falseWord.bare
  | .int n => (.number, .integer n)
  | .bigInt digits => (.number, .bigInteger digits)
  | .float x => (.number, .decimal x)
  | .string s => (.string, .text s)

theorem Literal.symbol_ne_endOfInput (l : Literal) : l.symbol.1 ≠ .endOfInput := by
  rcases l with _ | (_ | _) | _ | _ | _ | _ <;> nofun

/-- Whether a token has a payload of the sort that belongs to its kind. The tokens of a text have. -/
def Token.WellShaped (t : Token) : Prop :=
  match t.kind, t.payload with
  | .identifier, .text _ | .string, .text _ => True
  | .number, .integer _ | .number, .bigInteger _ | .number, .decimal _ => True
  | .identifier, _ | .string, _ | .number, _ => False
  | _, p => p = .empty

/-- Whether an expression can start with a token of this kind. -/
def TokenKind.startsExpr : TokenKind → Bool
  | identifier | string | number | trueWord | falseWord | nullWord | leftParen | minus | bang => true
  | _ => false

namespace Expr

/-! ## Trees as symbols -/

mutual

/-- The symbols of an expression, from left to right. -/
def symbols : Expr → List Symbol
  | literal l _ => [l.symbol]
  | binary op left right _ => left.symbols ++ (Operator.binary op).kind.bare :: right.symbols
  | logical op left right _ => left.symbols ++ (Operator.logical op).kind.bare :: right.symbols
  | unary op operand _ => op.kind.bare :: operand.symbols
  | grouping inner _ => TokenKind.leftParen.bare :: inner.symbols ++ [TokenKind.rightParen.bare]
  | name i => [i.symbol]
  | assign target value => target.symbol :: TokenKind.equal.bare :: value.symbols
  | call callee arguments _ => callee.symbols ++ TokenKind.leftParen.bare :: closedSymbols arguments
  | callMethod receiver method arguments =>
    receiver.symbols ++ TokenKind.dot.bare :: method.symbol :: TokenKind.leftParen.bare :: closedSymbols arguments
  | getField receiver field => receiver.symbols ++ [TokenKind.dot.bare, field.symbol]
  | setField receiver field value =>
    receiver.symbols ++ TokenKind.dot.bare :: field.symbol :: TokenKind.equal.bare :: value.symbols

/-- The symbols of arguments with commas between them, and the closing parenthesis. -/
def closedSymbols : List Expr → List Symbol
  | [] => [TokenKind.rightParen.bare]
  | e :: es => e.symbols ++ furtherSymbols es

/-- The symbols of the arguments after the first, each after a comma, and the closing parenthesis. -/
def furtherSymbols : List Expr → List Symbol
  | [] => [TokenKind.rightParen.bare]
  | e :: es => TokenKind.comma.bare :: e.symbols ++ furtherSymbols es

end

/-- An expression has a first symbol, of a kind that starts one. -/
theorem symbols_eq_cons : ∀ e : Expr, ∃ s ss, e.symbols = s :: ss ∧ s.1.startsExpr = true
  | literal l _ => ⟨_, _, by rw [symbols], by rcases l with _ | (_ | _) | _ | _ | _ | _ <;> rfl⟩
  | unary op _ _ => ⟨_, _, by rw [symbols], by cases op <;> rfl⟩
  | grouping .. => ⟨_, _, by rw [symbols]; rfl, rfl⟩
  | name _ | assign .. => ⟨_, _, by rw [symbols], rfl⟩
  | binary _ e .. | logical _ e .. | call e .. | callMethod e .. | getField e _ | setField e .. => by
    obtain ⟨s, ss, hs, h⟩ := symbols_eq_cons e
    exact ⟨s, _, by rw [symbols, hs]; rfl, h⟩

/-! ## Precedence -/

/-- How tightly an expression holds together: an assignment not at all, an operation as its operator, and more tightly
an operator before its operand, calls and members, and what is one symbol or stands in parentheses. -/
def rank : Expr → Nat
  | assign .. => 0
  | binary op .. => (Operator.binary op).level
  | logical op .. => (Operator.logical op).level
  | unary .. => 7
  | call .. | callMethod .. | getField .. | setField .. => 8
  | literal .. | name _ | grouping .. => 9

/-- Whether the last thing in an expression is the value of a field write. -/
def endsInSet : Expr → Bool
  | setField .. => true
  | binary _ _ right _ | logical _ _ right _ => right.endsInSet
  | unary _ operand _ => operand.endsInSet
  | assign _ value => value.endsInSet
  | _ => false

/-- Whether an expression is a field of another. -/
def isGetField : Expr → Bool
  | getField .. => true
  | _ => false

mutual

/-- Whether a tree keeps to the precedence of the operators. The left operand of an operator holds together as tightly
as the operator binds, the right one more tightly, the operand of an operator before it at least as tightly as that
operator, and a callee or receiver as tightly as a call. A left operand, callee or receiver does not end in the value of
a field write, which would take in what follows. A callee is not a field, since that is written like a method. -/
def WellRanked : Expr → Prop
  | literal .. | name _ => True
  | binary op left right _ =>
    (Operator.binary op).level ≤ left.rank ∧ (Operator.binary op).level < right.rank ∧ left.endsInSet = false ∧
      left.WellRanked ∧ right.WellRanked
  | logical op left right _ =>
    (Operator.logical op).level ≤ left.rank ∧ (Operator.logical op).level < right.rank ∧ left.endsInSet = false ∧
      left.WellRanked ∧ right.WellRanked
  | unary _ operand _ => 7 ≤ operand.rank ∧ operand.WellRanked
  | grouping inner _ => inner.WellRanked
  | assign _ value => value.WellRanked
  | call callee arguments _ =>
    8 ≤ callee.rank ∧ callee.endsInSet = false ∧ callee.isGetField = false ∧ callee.WellRanked ∧
      AllWellRanked arguments
  | callMethod receiver _ arguments =>
    8 ≤ receiver.rank ∧ receiver.endsInSet = false ∧ receiver.WellRanked ∧ AllWellRanked arguments
  | getField receiver _ => 8 ≤ receiver.rank ∧ receiver.endsInSet = false ∧ receiver.WellRanked
  | setField receiver _ value =>
    8 ≤ receiver.rank ∧ receiver.endsInSet = false ∧ receiver.WellRanked ∧ value.WellRanked

/-- Whether all arguments keep to the precedence of the operators. -/
def AllWellRanked : List Expr → Prop
  | [] => True
  | e :: es => e.WellRanked ∧ AllWellRanked es

end

/-! ## Places -/

mutual

/-- The tree without its places. -/
def unplaced : Expr → Expr
  | literal l _ => literal l .nowhere
  | binary op left right _ => binary op left.unplaced right.unplaced .nowhere
  | logical op left right _ => logical op left.unplaced right.unplaced .nowhere
  | unary op operand _ => unary op operand.unplaced .nowhere
  | grouping inner _ => grouping inner.unplaced .nowhere
  | name i => name ⟨i.name, .nowhere⟩
  | assign target value => assign ⟨target.name, .nowhere⟩ value.unplaced
  | call callee arguments _ => call callee.unplaced (unplacedAll arguments) .nowhere
  | callMethod receiver method arguments =>
    callMethod receiver.unplaced ⟨method.name, .nowhere⟩ (unplacedAll arguments)
  | getField receiver field => getField receiver.unplaced ⟨field.name, .nowhere⟩
  | setField receiver field value => setField receiver.unplaced ⟨field.name, .nowhere⟩ value.unplaced

/-- The arguments without their places. -/
def unplacedAll : List Expr → List Expr
  | [] => []
  | e :: es => e.unplaced :: unplacedAll es

end

mutual

theorem symbols_unplaced : ∀ e : Expr, e.unplaced.symbols = e.symbols
  | literal .. | name _ => by simp only [unplaced, symbols]
  | binary _ left right _ | logical _ left right _ => by
    simp only [unplaced, symbols, symbols_unplaced left, symbols_unplaced right]
  | unary _ operand _ => by simp only [unplaced, symbols, symbols_unplaced operand]
  | grouping inner _ => by simp only [unplaced, symbols, symbols_unplaced inner]
  | assign _ value => by simp only [unplaced, symbols, symbols_unplaced value]
  | call e arguments _ | callMethod e _ arguments => by
    simp only [unplaced, symbols, symbols_unplaced e, closedSymbols_unplaced arguments]
  | getField receiver _ => by simp only [unplaced, symbols, symbols_unplaced receiver]
  | setField receiver _ value => by simp only [unplaced, symbols, symbols_unplaced receiver, symbols_unplaced value]

theorem closedSymbols_unplaced : ∀ es : List Expr, closedSymbols (unplacedAll es) = closedSymbols es
  | [] => rfl
  | e :: es => by simp only [unplacedAll, closedSymbols, symbols_unplaced e, furtherSymbols_unplaced es]

theorem furtherSymbols_unplaced : ∀ es : List Expr, furtherSymbols (unplacedAll es) = furtherSymbols es
  | [] => rfl
  | e :: es => by simp only [unplacedAll, furtherSymbols, symbols_unplaced e, furtherSymbols_unplaced es]

end

end Expr

/-! ## Operations -/

namespace Operator

variable (op : Operator) (left right : Expr) (p : Position)

theorem level_pos : 1 ≤ op.level := by
  rcases op with op | op <;> cases op <;> decide

theorem level_le : op.level ≤ 6 := by
  rcases op with op | op <;> cases op <;> decide

theorem kind_ne_endOfInput : op.kind ≠ .endOfInput := by
  rcases op with op | op <;> cases op <;> decide

@[simp] theorem symbols_node : (op.node left right p).symbols = left.symbols ++ op.kind.bare :: right.symbols := by
  cases op <;> simp only [node, Expr.symbols]

@[simp] theorem rank_node : (op.node left right p).rank = op.level := by
  cases op <;> rfl

@[simp] theorem endsInSet_node : (op.node left right p).endsInSet = right.endsInSet := by
  cases op <;> rfl

@[simp] theorem wellRanked_node : (op.node left right p).WellRanked ↔
    op.level ≤ left.rank ∧ op.level < right.rank ∧ left.endsInSet = false ∧ left.WellRanked ∧ right.WellRanked := by
  cases op <;> simp only [node, Expr.WellRanked]

theorem sizeOf_left_lt : sizeOf left < sizeOf (op.node left right p) := by
  cases op <;> simp only [node, Expr.binary.sizeOf_spec, Expr.logical.sizeOf_spec] <;> omega

theorem sizeOf_right_lt : sizeOf right < sizeOf (op.node left right p) := by
  cases op <;> simp only [node, Expr.binary.sizeOf_spec, Expr.logical.sizeOf_spec] <;> omega

theorem unplaced_node : (op.node left right p).unplaced = op.node left.unplaced right.unplaced .nowhere := by
  cases op <;> simp only [node, Expr.unplaced]

end Operator

namespace Expr

/-- What an expression is, by how tightly it holds together. -/
theorem eq_of_rank (e : Expr) : (∃ target value, e = assign target value) ∨
    (∃ op left right p, e = Operator.node op left right p) ∨ (∃ op operand p, e = unary op operand p) ∨ 8 ≤ e.rank := by
  cases e with
  | assign target value => exact .inl ⟨target, value, rfl⟩
  | binary op left right p => exact .inr (.inl ⟨.binary op, left, right, p, rfl⟩)
  | logical op left right p => exact .inr (.inl ⟨.logical op, left, right, p, rfl⟩)
  | unary op operand p => exact .inr (.inr (.inl ⟨op, operand, p, rfl⟩))
  | _ => exact .inr (.inr (.inr (by simp [rank])))

end Expr

/-! ## Passing tokens -/

namespace Cursor

variable {c d e : Cursor} {ss ss' : List Symbol}

/-- Between two cursors lie the tokens with the given symbols. -/
def Reads (c : Cursor) (ss : List Symbol) (d : Cursor) : Prop :=
  ∃ ts, c.ahead = ts ++ d.ahead ∧ d.passed = ts.reverse ++ c.passed ∧ ts.map Token.symbol = ss

/-- Whether the tokens ahead have payloads of the sorts that belong to their kinds. -/
def WellShaped (c : Cursor) : Prop := ∀ t ∈ c.ahead, t.WellShaped

/-- A list of symbols is read from its tokens. -/
theorem reads_ofSymbols (ss : List Symbol) :
    (ofList (ss.map .ofSymbol)).Reads ss ⟨(ss.map .ofSymbol).reverse, []⟩ := by
  refine ⟨ss.map .ofSymbol, (List.append_nil _).symm, (List.append_nil _).symm, ?_⟩
  rw [List.map_map]
  exact List.map_id _

theorem Reads.refl (c : Cursor) : c.Reads [] c := ⟨[], rfl, rfl, rfl⟩

theorem Reads.trans (h₁ : c.Reads ss d) (h₂ : d.Reads ss' e) : c.Reads (ss ++ ss') e := by
  obtain ⟨ts, ha, hp, rfl⟩ := h₁
  obtain ⟨us, ha', hp', rfl⟩ := h₂
  exact ⟨ts ++ us, by rw [ha, ha', List.append_assoc], by rw [hp', hp, List.reverse_append, List.append_assoc],
    List.map_append⟩

theorem Reads.wellShaped (h : c.Reads ss d) (hc : c.WellShaped) : d.WellShaped := by
  obtain ⟨ts, ha, -, -⟩ := h
  exact fun t ht => hc t (by rw [ha]; exact List.mem_append_right _ ht)

/-- Symbols that are read one after the other are read up to some place between them. -/
theorem Reads.split (h : c.Reads (ss ++ ss') e) : ∃ d, c.Reads ss d ∧ d.Reads ss' e := by
  obtain ⟨ts, ha, hp, hs⟩ := h
  obtain ⟨us, vs, rfl, rfl, rfl⟩ := List.map_eq_append_iff.1 hs
  refine ⟨⟨us.reverse ++ c.passed, vs ++ e.ahead⟩, ⟨us, ?_, rfl, rfl⟩, ⟨vs, rfl, ?_, rfl⟩⟩
  · rw [ha, List.append_assoc]
  · rw [hp, List.reverse_append, List.append_assoc]

/-- The symbol ahead is read by passing it. -/
theorem reads_advance (h : c.kind ≠ .endOfInput) : c.Reads [c.current.symbol] c.advance := by
  obtain ⟨passed, ahead⟩ := c
  cases ahead with
  | nil => exact absurd rfl h
  | cons t ts =>
    have ht : t.kind ≠ .endOfInput := h
    exact ⟨[t], by simp [advance, ht], by simp [advance, ht], rfl⟩

/-- What stands ahead where symbols are read, and how they are read on. -/
theorem Reads.cons_inv {k : TokenKind} {p : Payload} (hk : k ≠ .endOfInput) (h : c.Reads ((k, p) :: ss) d) :
    c.current.symbol = (k, p) ∧ c.kind = k ∧ c.advance.Reads ss d := by
  obtain ⟨passed, ahead⟩ := c
  obtain ⟨ts, ha, hp, hm⟩ := h
  obtain ⟨t, us, rfl, ht, rfl⟩ := List.map_eq_cons_iff.1 hm
  simp only [List.cons_append] at ha
  subst ha
  obtain ⟨rfl, rfl⟩ := Prod.mk.inj ht
  exact ⟨rfl, rfl, us, by simp [advance, hk], by simp [advance, hk, hp], rfl⟩

theorem Reads.nil_inv (h : c.Reads [] d) : d = c := by
  obtain ⟨ts, ha, hp, hm⟩ := h
  obtain rfl := List.map_eq_nil_iff.1 hm
  obtain ⟨passed, ahead⟩ := c
  obtain ⟨passed', ahead'⟩ := d
  simp only [List.nil_append, List.reverse_nil] at ha hp
  rw [ha, hp]

/-- A token of a kind that has no payload. -/
theorem symbol_current (hc : c.WellShaped) {k : TokenKind} (hk : c.kind = k)
    (h : k ≠ .identifier ∧ k ≠ .string ∧ k ≠ .number ∧ k ≠ .endOfInput) : c.current.symbol = k.bare := by
  obtain ⟨passed, ahead⟩ := c
  cases ahead with
  | nil => exact absurd hk.symm h.2.2.2
  | cons t ts =>
    have ht : t.WellShaped := hc t List.mem_cons_self
    obtain ⟨kind, payload, position⟩ := t
    obtain rfl : kind = k := hk
    unfold Token.WellShaped at ht
    cases kind <;> simp_all [Token.symbol, current]

/-- A name. -/
theorem symbol_identifier (hc : c.WellShaped) (hk : c.kind = .identifier) : c.current.symbol = c.ident.symbol := by
  obtain ⟨passed, ahead⟩ := c
  cases ahead with
  | nil => cases hk
  | cons t ts =>
    have ht : t.WellShaped := hc t List.mem_cons_self
    obtain ⟨kind, payload, position⟩ := t
    obtain rfl : kind = .identifier := hk
    cases payload with
    | text s => rfl
    | _ => exact absurd ht id

end Cursor

end QueryTemplate
