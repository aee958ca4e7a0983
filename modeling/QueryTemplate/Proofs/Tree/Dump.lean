import QueryTemplate.Proofs.Tree.Atoms
import QueryTemplate.Proofs.Tree.RoundTrip

/-!
# Dumps of templates

Two templates have the same dump if and only if they are the same tree, up to places (`programSExpr_eq_iff`). The text
of a dump determines the symbolic expressions on its lines, since those of templates can be read
(`Stmt.readable_sexpr`). An expression determines the tree from its root on: the name at the front of a list and the
number of its items show the form of the node (`Stmt.nodeForm_sexpr`), and no two names or literals are the same atom.
-/

namespace QueryTemplate

open Lexeme SExpr

/-! ## Dumps are readable -/

namespace Expr

theorem forall_symbols_of_furtherSymbols {P : Symbol → Prop} : ∀ {es : List Expr}, (∀ y ∈ furtherSymbols es, P y) →
    ∀ e ∈ es, ∀ y ∈ e.symbols, P y
  | [], _ => List.forall_mem_nil _
  | e :: es, h => by
    simp only [furtherSymbols, List.cons_append, List.forall_mem_cons, List.forall_mem_append] at h
    exact List.forall_mem_cons.2 ⟨h.2.1, forall_symbols_of_furtherSymbols h.2.2⟩

/-- What holds of the symbols between the parentheses of a call holds of those of its arguments. -/
theorem forall_symbols_of_closedSymbols {P : Symbol → Prop} {es : List Expr} (h : ∀ y ∈ closedSymbols es, P y) :
    ∀ e ∈ es, ∀ y ∈ e.symbols, P y := by
  cases es with
  | nil => exact List.forall_mem_nil _
  | cons e es =>
    simp only [closedSymbols, List.forall_mem_append] at h
    exact List.forall_mem_cons.2 ⟨h.1, forall_symbols_of_furtherSymbols h.2⟩

mutual

/-- The dump of an expression whose symbols are those of a text can be read. -/
theorem readable_sexpr : ∀ e : Expr, (∀ y ∈ e.symbols, Symbol.Lexed y) → e.sexpr.Readable
  | literal l _, h => by
    rw [sexpr, Readable, toList_text_singleton]
    exact isAtom_literal (h l.symbol (by simp [symbols]))
  | name i, h => by
    rw [sexpr, Readable]
    exact .inl (IsName.isSolid (h i.symbol (by simp [symbols])))
  | binary op left right _, h | logical op left right _, h => by
    simp only [symbols, List.forall_mem_append, List.forall_mem_cons] at h
    obtain ⟨hleft, -, hright⟩ := h
    rw [sexpr]
    exact readable_form (by cases op <;> decide) ⟨readable_sexpr left hleft, readable_sexpr right hright, trivial⟩
  | unary op operand _, h => by
    simp only [symbols, List.forall_mem_cons] at h
    rw [sexpr]
    exact readable_form (by cases op <;> decide) ⟨readable_sexpr operand h.2, trivial⟩
  | grouping inner _, h => by
    simp only [symbols, List.cons_append, List.forall_mem_append, List.forall_mem_cons] at h
    rw [sexpr]
    exact readable_form (by decide) ⟨readable_sexpr inner h.2.1, trivial⟩
  | assign target value, h => by
    simp only [symbols, List.forall_mem_cons] at h
    obtain ⟨htarget, -, hvalue⟩ := h
    rw [sexpr]
    exact readable_form (by decide) ⟨.inl (IsName.isSolid htarget), readable_sexpr value hvalue, trivial⟩
  | call callee arguments _, h => by
    simp only [symbols, List.forall_mem_append, List.forall_mem_cons] at h
    obtain ⟨hcallee, -, harguments⟩ := h
    rw [sexpr]
    exact readable_form (by decide)
      ⟨readable_sexpr callee hcallee, readable_sexprs arguments (forall_symbols_of_closedSymbols harguments)⟩
  | callMethod receiver method arguments, h => by
    simp only [symbols, List.forall_mem_append, List.forall_mem_cons] at h
    obtain ⟨hreceiver, -, hmethod, -, harguments⟩ := h
    rw [sexpr]
    exact readable_form (by decide) ⟨readable_sexpr receiver hreceiver, .inl (IsName.isSolid hmethod),
      readable_sexprs arguments (forall_symbols_of_closedSymbols harguments)⟩
  | getField receiver field, h => by
    simp only [symbols, List.forall_mem_append, List.forall_mem_cons] at h
    obtain ⟨hreceiver, -, hfield, -⟩ := h
    rw [sexpr]
    exact readable_form (by decide) ⟨readable_sexpr receiver hreceiver, .inl (IsName.isSolid hfield), trivial⟩
  | setField receiver field value, h => by
    simp only [symbols, List.forall_mem_append, List.forall_mem_cons] at h
    obtain ⟨hreceiver, -, hfield, -, hvalue⟩ := h
    rw [sexpr]
    exact readable_form (by decide)
      ⟨readable_sexpr receiver hreceiver, .inl (IsName.isSolid hfield), readable_sexpr value hvalue, trivial⟩

theorem readable_sexprs : ∀ es : List Expr, (∀ e ∈ es, ∀ y ∈ e.symbols, Symbol.Lexed y) → AllReadable (sexprs es)
  | [], _ => trivial
  | e :: es, h => by
    rw [List.forall_mem_cons] at h
    exact ⟨readable_sexpr e h.1, readable_sexprs es h.2⟩

end

end Expr

namespace Stmt

theorem forall_symbol_of_parameterListSymbols {P : Symbol → Prop} {p : Ident} {ps : List Ident}
    (h : ∀ y ∈ parameterListSymbols p ps, P y) : ∀ q ∈ p :: ps, P q.symbol := by
  induction ps generalizing p with
  | nil => exact List.forall_mem_singleton.2 (h p.symbol List.mem_cons_self)
  | cons q ps ih =>
    simp only [parameterListSymbols, List.forall_mem_cons (a := p.symbol)] at h
    exact List.forall_mem_cons.2 ⟨h.1, ih (List.forall_mem_cons.1 h.2).2⟩

theorem readable_parameterSExpr {ps : List Ident} (h : ∀ y ∈ parameterSymbols ps, Symbol.Lexed y) :
    (parameterSExpr ps).Readable := by
  have hall : ∀ {ps : List Ident}, (∀ p ∈ ps, Symbol.Lexed p.symbol) →
      AllReadable (ps.map fun p => atom p.name) := fun {ps} h => by
    induction ps with
    | nil => trivial
    | cons p ps ih =>
      rw [List.forall_mem_cons] at h
      exact ⟨.inl (IsName.isSolid h.1), ih h.2⟩
  rw [parameterSExpr, Readable]
  cases ps with
  | nil => trivial
  | cons p ps => exact hall (forall_symbol_of_parameterListSymbols h)

/-- The path of an import is made of names, and so is its local name, which may be the last of them. -/
theorem isSolid_import {path localName : String} (h : ∀ y ∈ importSymbols path localName, Symbol.Lexed y) :
    IsSolid path.toList ∧ IsSolid localName.toList := by
  simp only [importSymbols, List.forall_mem_append] at h
  have hnames := isName_of_pathSymbols h.1.1
  have hsolid : ∀ cs ∈ path.toList.splitOn '.', IsSolid cs := fun cs hcs => by
    simpa using (hnames cs hcs).isSolid
  constructor
  · have hpath : ['.'].intercalate (path.toList.splitOn '.') = path.toList := List.intercalate_splitOn '.'
    rw [← hpath]
    exact isSolid_intercalate (List.splitOn_ne_nil _ _) hsolid
  · have hlocal := h.1.2
    split at hlocal
    next hlast => exact hsolid _ (List.mem_of_getLast? hlast)
    next => exact IsName.isSolid (hlocal _ (List.mem_cons_of_mem _ List.mem_cons_self))

mutual

/-- The dump of a statement whose symbols are those of a text can be read. -/
theorem readable_sexpr : ∀ s : Stmt, (∀ y ∈ s.symbols, Symbol.Lexed y) → s.sexpr.Readable
  | expr e, h => by
    simp only [symbols, List.forall_mem_append] at h
    rw [sexpr]
    exact e.readable_sexpr h.1
  | define name value, h => by
    simp only [symbols, List.forall_mem_cons, List.forall_mem_append] at h
    obtain ⟨-, hname, -, hvalue, -⟩ := h
    rw [sexpr]
    exact readable_form (by decide) ⟨.inl (IsName.isSolid hname), value.readable_sexpr hvalue, trivial⟩
  | print e, h => by
    simp only [symbols, List.forall_mem_cons, List.forall_mem_append] at h
    rw [sexpr]
    exact readable_form (by decide) ⟨e.readable_sexpr h.2.1, trivial⟩
  | ifThen condition thenBranch, h => by
    simp only [symbols, List.forall_mem_cons, List.forall_mem_append] at h
    obtain ⟨-, hcondition, hthen⟩ := h
    rw [sexpr]
    exact readable_form (by decide) ⟨condition.readable_sexpr hcondition, readable_sexpr thenBranch hthen, trivial⟩
  | ifElse condition thenBranch elseBranch, h => by
    simp only [symbols, List.forall_mem_cons, List.forall_mem_append] at h
    obtain ⟨-, hcondition, hthen, -, helse⟩ := h
    rw [sexpr]
    exact readable_form (by decide) ⟨condition.readable_sexpr hcondition, readable_sexpr thenBranch hthen,
      readable_sexpr elseBranch helse, trivial⟩
  | block body, h => by
    simp only [symbols, List.forall_mem_cons, List.forall_mem_append] at h
    rw [sexpr]
    exact readable_form (by decide) (readable_sexprs body h.2.1)
  | function name parameters body, h => by
    simp only [symbols, List.forall_mem_cons, List.forall_mem_append] at h
    obtain ⟨-, hname, -, hparameters, -, hbody, -⟩ := h
    rw [sexpr]
    exact readable_form (by decide)
      ⟨.inl (IsName.isSolid hname), readable_parameterSExpr hparameters, readable_sexprs body hbody⟩
  | mapper name parameters body, h => by
    simp only [symbols, List.forall_mem_cons, List.forall_mem_append] at h
    obtain ⟨hname, -, hparameters, -, hbody, -⟩ := h
    rw [sexpr]
    exact readable_form (by decide)
      ⟨.inl (IsName.isSolid hname), readable_parameterSExpr hparameters, readable_sexprs body hbody⟩
  | ret none _, _ => by
    rw [sexpr]
    exact readable_form (by decide) trivial
  | ret (some value) _, h => by
    simp only [symbols, List.forall_mem_cons, List.forall_mem_append] at h
    rw [sexpr]
    exact readable_form (by decide) ⟨value.readable_sexpr h.2.1, trivial⟩
  | importType path localName, h => by
    simp only [symbols, List.forall_mem_cons] at h
    obtain ⟨hpath, hlocal⟩ := isSolid_import h.2
    rw [sexpr]
    exact readable_form (by decide) ⟨.inl hpath, .inl hlocal, trivial⟩

theorem readable_sexprs : ∀ ss : List Stmt, (∀ y ∈ symbolsOfAll ss, Symbol.Lexed y) → AllReadable (sexprs ss)
  | [], _ => trivial
  | s :: ss, h => by
    simp only [symbolsOfAll, List.forall_mem_append] at h
    exact ⟨readable_sexpr s h.1, readable_sexprs ss h.2⟩

end

end Stmt

/-! ## Forms -/

/-- The forms of expressions, and the operators of operations. -/
inductive ExprForm
  | leaf
  | binary (op : BinaryOp)
  | logical (op : LogicalOp)
  | unary (op : UnaryOp)
  | grouping | assign | call | callMethod | getField | setField

/-- The forms of statements. -/
inductive StmtForm
  | expr (form : ExprForm)
  | define | print | ifThen | ifElse | block | function | mapper | ret | importType

/-- The form of an expression. -/
def Expr.form : Expr → ExprForm
  | literal .. | name _ => .leaf
  | binary op .. => .binary op
  | logical op .. => .logical op
  | unary op .. => .unary op
  | grouping .. => .grouping
  | assign .. => .assign
  | call .. => .call
  | callMethod .. => .callMethod
  | getField .. => .getField
  | setField .. => .setField

/-- The form of a statement. -/
def Stmt.form : Stmt → StmtForm
  | expr e => .expr e.form
  | define .. => .define
  | print _ => .print
  | ifThen .. => .ifThen
  | ifElse .. => .ifElse
  | block _ => .block
  | function .. => .function
  | mapper .. => .mapper
  | ret .. => .ret
  | importType .. => .importType

namespace SExpr

/-- The form of a node whose dump has a name at its front and the given items. Two names stand for two forms each, one
of which has an item less. -/
def formNamed (head : String) (items : List SExpr) : StmtForm :=
  match head, items with
  | "-", [_] => .expr (.unary .neg)
  | "-", _ => .expr (.binary .sub)
  | "!", _ => .expr (.unary .not)
  | "&&", _ => .expr (.logical .and)
  | "||", _ => .expr (.logical .or)
  | "+", _ => .expr (.binary .add)
  | "*", _ => .expr (.binary .mul)
  | "/", _ => .expr (.binary .div)
  | "==", _ => .expr (.binary .eq)
  | "!=", _ => .expr (.binary .ne)
  | "<", _ => .expr (.binary .lt)
  | "<=", _ => .expr (.binary .le)
  | ">", _ => .expr (.binary .gt)
  | ">=", _ => .expr (.binary .ge)
  | "group", _ => .expr .grouping
  | "=", _ => .expr .assign
  | "call", _ => .expr .call
  | "method", _ => .expr .callMethod
  | "get", _ => .expr .getField
  | "set", _ => .expr .setField
  | "var", _ => .define
  | "println", _ => .print
  | "if", [_, _] => .ifThen
  | "if", _ => .ifElse
  | "block", _ => .block
  | "fun", _ => .function
  | "mapper", _ => .mapper
  | "return", _ => .ret
  | _, _ => .importType

/-- The form of a node, as its dump shows it. -/
def nodeForm : SExpr → StmtForm
  | list (atom head :: items) => formNamed head items
  | _ => .expr .leaf

end SExpr

theorem Expr.nodeForm_sexpr (e : Expr) : e.sexpr.nodeForm = .expr e.form := by
  cases e with
  | binary op | logical op | unary op => cases op <;> (rw [sexpr]; rfl)
  | _ => rw [sexpr]; rfl

theorem Stmt.nodeForm_sexpr (s : Stmt) : s.sexpr.nodeForm = s.form := by
  cases s with
  | expr e => rw [sexpr, e.nodeForm_sexpr, form]
  | _ => rw [sexpr]; rfl

/-- Equal dumps are those of nodes of one form. -/
theorem Expr.form_eq {e e' : Expr} (h : e.sexpr = e'.sexpr) : e.form = e'.form := by
  have hform := congrArg SExpr.nodeForm h
  rw [nodeForm_sexpr, nodeForm_sexpr] at hform
  exact StmtForm.expr.inj hform

theorem Stmt.form_eq {s s' : Stmt} (h : s.sexpr = s'.sexpr) : s.form = s'.form := by
  rw [← nodeForm_sexpr, ← nodeForm_sexpr, h]

/-! ## Dumps determine trees -/

section Trees

variable {P Q : Symbol → Prop}

namespace Expr

mutual

/-- Expressions with the same dump are the same, up to places. -/
theorem unplaced_of_sexpr (ht : ToldApart P Q) : ∀ {e e' : Expr}, (∀ y ∈ e.symbols, P y) →
    (∀ y ∈ e'.symbols, Q y) → e.sexpr = e'.sexpr → e.unplaced = e'.unplaced
  | literal l _, e', h, h', he => by
    have hform := form_eq he
    have hl : P l.symbol := h _ (by simp [symbols])
    cases e' with
    | literal l' _ =>
      have hl' : Q l'.symbol := h' _ (by simp [symbols])
      simp only [sexpr, SExpr.atom.injEq, ← String.toList_inj, toList_text_singleton] at he
      rw [unplaced, unplaced, ht.literal_inj hl hl' he]
    | name i =>
      have hi : Q i.symbol := h' _ (by simp [symbols])
      simp only [sexpr, SExpr.atom.injEq, ← String.toList_inj, toList_text_singleton] at he
      exact absurd he (literal_ne_name (ht.lexed _ hl) (ht.lexed' _ hi))
    -- A node of another form has another dump.
    | _ => cases hform
  | name i, e', h, h', he => by
    have hform := form_eq he
    cases e' with
    | literal l _ =>
      have hi : P i.symbol := h _ (by simp [symbols])
      have hl : Q l.symbol := h' _ (by simp [symbols])
      simp only [sexpr, SExpr.atom.injEq, ← String.toList_inj, toList_text_singleton] at he
      exact absurd he.symm (literal_ne_name (ht.lexed' _ hl) (ht.lexed _ hi))
    | name j =>
      simp only [sexpr, SExpr.atom.injEq] at he
      rw [unplaced, unplaced, he]
    | _ => cases hform
  | binary op left right _, e', h, h', he => by
    have hform := form_eq he
    cases e' with
    | binary op' left' right' _ =>
      cases hform
      simp only [symbols, List.forall_mem_append, List.forall_mem_cons] at h h'
      simp only [sexpr, form_inj, List.cons.injEq, true_and, and_true] at he
      obtain ⟨hleft, -, hright⟩ := h
      obtain ⟨hleft', -, hright'⟩ := h'
      rw [unplaced, unplaced, unplaced_of_sexpr ht hleft hleft' he.1, unplaced_of_sexpr ht hright hright' he.2]
    | _ => cases hform
  | logical op left right _, e', h, h', he => by
    have hform := form_eq he
    cases e' with
    | logical op' left' right' _ =>
      cases hform
      simp only [symbols, List.forall_mem_append, List.forall_mem_cons] at h h'
      simp only [sexpr, form_inj, List.cons.injEq, true_and, and_true] at he
      obtain ⟨hleft, -, hright⟩ := h
      obtain ⟨hleft', -, hright'⟩ := h'
      rw [unplaced, unplaced, unplaced_of_sexpr ht hleft hleft' he.1, unplaced_of_sexpr ht hright hright' he.2]
    | _ => cases hform
  | unary op operand _, e', h, h', he => by
    have hform := form_eq he
    cases e' with
    | unary op' operand' _ =>
      cases hform
      simp only [symbols, List.forall_mem_cons] at h h'
      simp only [sexpr, form_inj, List.cons.injEq, true_and, and_true] at he
      rw [unplaced, unplaced, unplaced_of_sexpr ht h.2 h'.2 he]
    | _ => cases hform
  | grouping inner _, e', h, h', he => by
    have hform := form_eq he
    cases e' with
    | grouping inner' _ =>
      simp only [symbols, List.cons_append, List.forall_mem_append, List.forall_mem_cons] at h h'
      simp only [sexpr, form_inj, List.cons.injEq, true_and, and_true] at he
      rw [unplaced, unplaced, unplaced_of_sexpr ht h.2.1 h'.2.1 he]
    | _ => cases hform
  | assign target value, e', h, h', he => by
    have hform := form_eq he
    cases e' with
    | assign target' value' =>
      simp only [symbols, List.forall_mem_cons] at h h'
      simp only [sexpr, form_inj, List.cons.injEq, SExpr.atom.injEq, true_and, and_true] at he
      obtain ⟨-, -, hvalue⟩ := h
      obtain ⟨-, -, hvalue'⟩ := h'
      rw [unplaced, unplaced, he.1, unplaced_of_sexpr ht hvalue hvalue' he.2]
    | _ => cases hform
  | call callee arguments _, e', h, h', he => by
    have hform := form_eq he
    cases e' with
    | call callee' arguments' _ =>
      simp only [symbols, List.forall_mem_append, List.forall_mem_cons] at h h'
      simp only [sexpr, form_inj, List.cons.injEq, true_and] at he
      obtain ⟨hcallee, -, harguments⟩ := h
      obtain ⟨hcallee', -, harguments'⟩ := h'
      rw [unplaced, unplaced, unplaced_of_sexpr ht hcallee hcallee' he.1, unplacedAll_of_sexprs ht
        (forall_symbols_of_closedSymbols harguments) (forall_symbols_of_closedSymbols harguments') he.2]
    | _ => cases hform
  | callMethod receiver method arguments, e', h, h', he => by
    have hform := form_eq he
    cases e' with
    | callMethod receiver' method' arguments' =>
      simp only [symbols, List.forall_mem_append, List.forall_mem_cons] at h h'
      simp only [sexpr, form_inj, List.cons.injEq, SExpr.atom.injEq, true_and] at he
      obtain ⟨hreceiver, -, -, -, harguments⟩ := h
      obtain ⟨hreceiver', -, -, -, harguments'⟩ := h'
      obtain ⟨hsame, hmethod, hall⟩ := he
      rw [unplaced, unplaced, unplaced_of_sexpr ht hreceiver hreceiver' hsame, hmethod, unplacedAll_of_sexprs ht
        (forall_symbols_of_closedSymbols harguments) (forall_symbols_of_closedSymbols harguments') hall]
    | _ => cases hform
  | getField receiver field, e', h, h', he => by
    have hform := form_eq he
    cases e' with
    | getField receiver' field' =>
      simp only [symbols, List.forall_mem_append] at h h'
      simp only [sexpr, form_inj, List.cons.injEq, SExpr.atom.injEq, true_and, and_true] at he
      rw [unplaced, unplaced, unplaced_of_sexpr ht h.1 h'.1 he.1, he.2]
    | _ => cases hform
  | setField receiver field value, e', h, h', he => by
    have hform := form_eq he
    cases e' with
    | setField receiver' field' value' =>
      simp only [symbols, List.forall_mem_append, List.forall_mem_cons] at h h'
      simp only [sexpr, form_inj, List.cons.injEq, SExpr.atom.injEq, true_and, and_true] at he
      obtain ⟨hreceiver, -, -, -, hvalue⟩ := h
      obtain ⟨hreceiver', -, -, -, hvalue'⟩ := h'
      obtain ⟨hsame, hfield, hsame'⟩ := he
      rw [unplaced, unplaced, unplaced_of_sexpr ht hreceiver hreceiver' hsame, hfield,
        unplaced_of_sexpr ht hvalue hvalue' hsame']
    | _ => cases hform

theorem unplacedAll_of_sexprs (ht : ToldApart P Q) : ∀ {es es' : List Expr}, (∀ e ∈ es, ∀ y ∈ e.symbols, P y) →
    (∀ e ∈ es', ∀ y ∈ e.symbols, Q y) → sexprs es = sexprs es' → unplacedAll es = unplacedAll es'
  | [], [], _, _, _ => rfl
  | [], _ :: _, _, _, he => by cases he
  | _ :: _, [], _, _, he => by cases he
  | e :: es, e' :: es', h, h', he => by
    rw [List.forall_mem_cons] at h h'
    simp only [sexprs, List.cons.injEq] at he
    rw [unplacedAll, unplacedAll, unplaced_of_sexpr ht h.1 h'.1 he.1, unplacedAll_of_sexprs ht h.2 h'.2 he.2]

end

end Expr

namespace Stmt

theorem unplaced_of_name {i j : Ident} (h : i.name = j.name) : i.unplaced = j.unplaced := by
  rw [Ident.unplaced, Ident.unplaced, h]

theorem unplaced_of_parameterSExpr {ps qs : List Ident} (h : parameterSExpr ps = parameterSExpr qs) :
    ps.map Ident.unplaced = qs.map Ident.unplaced := by
  induction ps generalizing qs with
  | nil =>
    cases qs with
    | nil => rfl
    | cons => cases h
  | cons p ps ih =>
    cases qs with
    | nil => cases h
    | cons q qs =>
      simp only [parameterSExpr, List.map_cons, list.injEq, List.cons.injEq, atom.injEq] at h
      rw [List.map_cons, List.map_cons, unplaced_of_name h.1, ih (congrArg list h.2)]

mutual

/-- Statements with the same dump are the same, up to places. -/
theorem unplaced_of_sexpr (ht : ToldApart P Q) : ∀ {s s' : Stmt}, (∀ y ∈ s.symbols, P y) →
    (∀ y ∈ s'.symbols, Q y) → s.sexpr = s'.sexpr → s.unplaced = s'.unplaced
  | expr e, s', h, h', he => by
    have hform := form_eq he
    cases s' with
    | expr e' =>
      simp only [symbols, List.forall_mem_append] at h h'
      simp only [sexpr] at he
      rw [unplaced, unplaced, Expr.unplaced_of_sexpr ht h.1 h'.1 he]
    | _ => cases hform
  | define name value, s', h, h', he => by
    have hform := form_eq he
    cases s' with
    | define name' value' =>
      simp only [symbols, List.forall_mem_cons, List.forall_mem_append] at h h'
      simp only [sexpr, form_inj, List.cons.injEq, atom.injEq, true_and, and_true] at he
      obtain ⟨-, -, -, hvalue, -⟩ := h
      obtain ⟨-, -, -, hvalue', -⟩ := h'
      rw [unplaced, unplaced, unplaced_of_name he.1, Expr.unplaced_of_sexpr ht hvalue hvalue' he.2]
    | _ => cases hform
  | print e, s', h, h', he => by
    have hform := form_eq he
    cases s' with
    | print e' =>
      simp only [symbols, List.forall_mem_cons, List.forall_mem_append] at h h'
      simp only [sexpr, form_inj, List.cons.injEq, true_and, and_true] at he
      rw [unplaced, unplaced, Expr.unplaced_of_sexpr ht h.2.1 h'.2.1 he]
    | _ => cases hform
  | ifThen condition thenBranch, s', h, h', he => by
    have hform := form_eq he
    cases s' with
    | ifThen condition' thenBranch' =>
      simp only [symbols, List.forall_mem_cons, List.forall_mem_append] at h h'
      simp only [sexpr, form_inj, List.cons.injEq, true_and, and_true] at he
      obtain ⟨-, hcondition, hthen⟩ := h
      obtain ⟨-, hcondition', hthen'⟩ := h'
      rw [unplaced, unplaced, Expr.unplaced_of_sexpr ht hcondition hcondition' he.1,
        unplaced_of_sexpr ht hthen hthen' he.2]
    | _ => cases hform
  | ifElse condition thenBranch elseBranch, s', h, h', he => by
    have hform := form_eq he
    cases s' with
    | ifElse condition' thenBranch' elseBranch' =>
      simp only [symbols, List.forall_mem_cons, List.forall_mem_append] at h h'
      simp only [sexpr, form_inj, List.cons.injEq, true_and, and_true] at he
      obtain ⟨-, hcondition, hthen, -, helse⟩ := h
      obtain ⟨-, hcondition', hthen', -, helse'⟩ := h'
      obtain ⟨hsame, hsame₁, hsame₂⟩ := he
      rw [unplaced, unplaced, Expr.unplaced_of_sexpr ht hcondition hcondition' hsame,
        unplaced_of_sexpr ht hthen hthen' hsame₁, unplaced_of_sexpr ht helse helse' hsame₂]
    | _ => cases hform
  | block body, s', h, h', he => by
    have hform := form_eq he
    cases s' with
    | block body' =>
      simp only [symbols, List.forall_mem_cons, List.forall_mem_append] at h h'
      simp only [sexpr, form_inj, true_and] at he
      rw [unplaced, unplaced, unplacedAll_of_sexprs ht h.2.1 h'.2.1 he]
    | _ => cases hform
  | function name parameters body, s', h, h', he => by
    have hform := form_eq he
    cases s' with
    | function name' parameters' body' =>
      simp only [symbols, List.forall_mem_cons, List.forall_mem_append] at h h'
      simp only [sexpr, form_inj, List.cons.injEq, atom.injEq, true_and] at he
      obtain ⟨-, -, -, -, -, hbody, -⟩ := h
      obtain ⟨-, -, -, -, -, hbody', -⟩ := h'
      obtain ⟨hname, hparameters, hsame⟩ := he
      rw [unplaced, unplaced, unplaced_of_name hname, unplaced_of_parameterSExpr hparameters,
        unplacedAll_of_sexprs ht hbody hbody' hsame]
    | _ => cases hform
  | mapper name parameters body, s', h, h', he => by
    have hform := form_eq he
    cases s' with
    | mapper name' parameters' body' =>
      simp only [symbols, List.forall_mem_cons, List.forall_mem_append] at h h'
      simp only [sexpr, form_inj, List.cons.injEq, atom.injEq, true_and] at he
      obtain ⟨-, -, -, -, hbody, -⟩ := h
      obtain ⟨-, -, -, -, hbody', -⟩ := h'
      obtain ⟨hname, hparameters, hsame⟩ := he
      rw [unplaced, unplaced, unplaced_of_name hname, unplaced_of_parameterSExpr hparameters,
        unplacedAll_of_sexprs ht hbody hbody' hsame]
    | _ => cases hform
  | ret value _, s', h, h', he => by
    have hform := form_eq he
    cases s' with
    | ret value' _ =>
      simp only [sexpr, form_inj, true_and] at he
      cases value with
      | none =>
        cases value' with
        | none => rw [unplaced, unplaced]
        | some => cases he
      | some e =>
        cases value' with
        | none => cases he
        | some e' =>
          simp only [symbols, List.forall_mem_cons, List.forall_mem_append] at h h'
          simp only [Option.map_some, Option.toList_some, List.cons.injEq, and_true] at he
          rw [unplaced, unplaced, Expr.unplaced_of_sexpr ht h.2.1 h'.2.1 he]
    | _ => cases hform
  | importType path localName, s', h, h', he => by
    have hform := form_eq he
    cases s' with
    | importType path' localName' =>
      simp only [sexpr, form_inj, List.cons.injEq, atom.injEq, true_and, and_true] at he
      rw [unplaced, unplaced, he.1, unplaced_of_name he.2]
    | _ => cases hform

theorem unplacedAll_of_sexprs (ht : ToldApart P Q) : ∀ {ss ss' : List Stmt}, (∀ y ∈ symbolsOfAll ss, P y) →
    (∀ y ∈ symbolsOfAll ss', Q y) → sexprs ss = sexprs ss' → unplacedAll ss = unplacedAll ss'
  | [], [], _, _, _ => rfl
  | [], _ :: _, _, _, he => by cases he
  | _ :: _, [], _, _, he => by cases he
  | s :: ss, s' :: ss', h, h', he => by
    simp only [symbolsOfAll, List.forall_mem_append] at h h'
    simp only [sexprs, List.cons.injEq] at he
    rw [unplacedAll, unplacedAll, unplaced_of_sexpr ht h.1 h'.1 he.1, unplacedAll_of_sexprs ht h.2 h'.2 he.2]

end

end Stmt

end Trees

/-! ## Places are not dumped -/

namespace Expr

mutual

theorem sexpr_unplaced : ∀ e : Expr, e.unplaced.sexpr = e.sexpr
  | literal .. | name _ => by simp only [unplaced, sexpr]
  | binary _ left right _ | logical _ left right _ => by
    simp only [unplaced, sexpr, sexpr_unplaced left, sexpr_unplaced right]
  | unary _ operand _ => by simp only [unplaced, sexpr, sexpr_unplaced operand]
  | grouping inner _ => by simp only [unplaced, sexpr, sexpr_unplaced inner]
  | assign _ value => by simp only [unplaced, sexpr, sexpr_unplaced value]
  | call e arguments _ | callMethod e _ arguments => by
    simp only [unplaced, sexpr, sexpr_unplaced e, sexprs_unplacedAll arguments]
  | getField receiver _ => by simp only [unplaced, sexpr, sexpr_unplaced receiver]
  | setField receiver _ value => by simp only [unplaced, sexpr, sexpr_unplaced receiver, sexpr_unplaced value]

theorem sexprs_unplacedAll : ∀ es : List Expr, sexprs (unplacedAll es) = sexprs es
  | [] => rfl
  | e :: es => by simp only [unplacedAll, sexprs, sexpr_unplaced e, sexprs_unplacedAll es]

end

end Expr

namespace Stmt

theorem parameterSExpr_unplaced (ps : List Ident) : parameterSExpr (ps.map Ident.unplaced) = parameterSExpr ps := by
  simp only [parameterSExpr, List.map_map, Function.comp_def, Ident.unplaced]

mutual

theorem sexpr_unplaced : ∀ s : Stmt, s.unplaced.sexpr = s.sexpr
  | expr e | print e => by simp only [unplaced, sexpr, Expr.sexpr_unplaced]
  | define name value => by simp only [unplaced, sexpr, Expr.sexpr_unplaced, Ident.unplaced]
  | ret (some value) _ => by simp only [unplaced, sexpr, Option.map_some, Expr.sexpr_unplaced]
  | ret none _ | importType .. => by simp only [unplaced, sexpr, Ident.unplaced]
  | ifThen condition thenBranch => by simp only [unplaced, sexpr, Expr.sexpr_unplaced, sexpr_unplaced thenBranch]
  | ifElse condition thenBranch elseBranch => by
    simp only [unplaced, sexpr, Expr.sexpr_unplaced, sexpr_unplaced thenBranch, sexpr_unplaced elseBranch]
  | block body => by simp only [unplaced, sexpr, sexprs_unplacedAll body]
  | function name parameters body | mapper name parameters body => by
    simp only [unplaced, sexpr, parameterSExpr_unplaced, sexprs_unplacedAll body]
    rw [Ident.unplaced]

theorem sexprs_unplacedAll : ∀ ss : List Stmt, sexprs (unplacedAll ss) = sexprs ss
  | [] => rfl
  | s :: ss => by simp only [unplacedAll, sexprs, sexpr_unplaced s, sexprs_unplacedAll ss]

end

theorem sexprs_eq_map (ss : List Stmt) : sexprs ss = ss.map sexpr := by
  induction ss with
  | nil => rfl
  | cons s ss ih => rw [sexprs, ih, List.map_cons]

end Stmt

/-! ## Templates -/

open Stmt

/-- The dump of a template are the lines of those of its statements. -/
theorem programSExpr_eq_lines (p : Program) : programSExpr p = lines (sexprs p) := by
  rw [programSExpr, lines, sexprs_eq_map, List.map_map]
  rfl

theorem symbols_lexed_of_compile {source : String} {p : Program} (h : compile source = .ok p) :
    ∀ y ∈ symbolsOfAll p, Symbol.Lexed y := by
  have hall : ∀ {ss : List Stmt}, (∀ s ∈ ss, s.Shaped ∧ s.Lexed) → AllLexed ss := fun {ss} h => by
    induction ss with
    | nil => exact ⟨trivial, List.forall_mem_nil _⟩
    | cons s ss ih =>
      rw [List.forall_mem_cons] at h
      exact allLexed_cons.2 ⟨h.1.2, ih h.2⟩
  exact (hall (compile_lexed h)).2

/-- Of two templates the dumps are equal if and only if the trees are, up to places. What is assumed is that no two
different numbers with a point, the one from the first template and the other from the second, have the same text. -/
theorem programSExpr_eq_iff {source source' : String} {p q : Program} (hp : compile source = .ok p)
    (hq : compile source' = .ok q)
    (hf : ∀ x y, (TokenKind.number, Payload.decimal x) ∈ symbolsOfAll p → (.number, .decimal y) ∈ symbolsOfAll q →
      Lexeme.text [ofFloat x] = Lexeme.text [ofFloat y] → x = y) :
    programSExpr p = programSExpr q ↔ unplacedAll p = unplacedAll q := by
  have hlexed := symbols_lexed_of_compile hp
  have hlexed' := symbols_lexed_of_compile hq
  have hapart : ToldApart (· ∈ symbolsOfAll p) (· ∈ symbolsOfAll q) := by
    refine ⟨hlexed, hlexed', fun x y hx hy he => hf x y hx hy ?_⟩
    rw [← String.toList_inj, toList_text_singleton, toList_text_singleton, he]
  rw [programSExpr_eq_lines, programSExpr_eq_lines]
  constructor
  · intro h
    have hsexprs := lines_inj (readable_sexprs p hlexed) (readable_sexprs q hlexed') h
    exact unplacedAll_of_sexprs hapart (fun _ hy => hy) (fun _ hy => hy) hsexprs
  · intro h
    rw [← sexprs_unplacedAll p, h, sexprs_unplacedAll]

/-- Two spellings of one number, with the same dump. -/
theorem programSExpr_eq_iff_half : ∃ p q, compile "1.5" = .ok p ∧ compile "1.50" = .ok q ∧
    (programSExpr p = programSExpr q ↔ unplacedAll p = unplacedAll q) := by
  have hone : IsDigits ['1'] := ⟨nofun, List.all_eq_true.1 rfl⟩
  have hcuts : ∀ {fraction : List Char}, IsDigits fraction → (decimalValue ['1'] fraction).isFinite = true →
      Cuts ('1' :: '.' :: fraction ++ []) [(Literal.float (decimalValue ['1'] fraction)).symbol] [] :=
    fun hfraction hx => cuts_decimal hone hfraction nofun hx
  have hfive : IsDigits ['5'] := ⟨nofun, List.all_eq_true.1 rfl⟩
  have hfifty : IsDigits ['5', '0'] := ⟨nofun, List.all_eq_true.1 rfl⟩
  have hequal : decimalValue ['1'] ['5'] = decimalValue ['1'] ['5', '0'] := by decide +kernel
  have hx : Cuts "1.5".toList [(Literal.float (decimalValue ['1'] ['5'])).symbol] [] :=
    hcuts hfive (by decide +kernel)
  have hy : Cuts "1.50".toList [(Literal.float (decimalValue ['1'] ['5', '0'])).symbol] [] :=
    hcuts hfifty (by decide +kernel)
  obtain ⟨p, hp⟩ := compile_literal hx
  obtain ⟨q, hq⟩ := compile_literal hy
  refine ⟨_, _, hp, hq, programSExpr_eq_iff hp hq fun x y hx hy _ => ?_⟩
  simp only [symbolsOfAll, symbols, Expr.symbols, Literal.symbol, List.cons_append, List.nil_append, List.mem_cons,
    Prod.mk.injEq, reduceCtorEq, Payload.decimal.injEq, true_and, false_and, or_false, List.not_mem_nil] at hx hy
  rw [hx, hy, hequal]

end QueryTemplate
