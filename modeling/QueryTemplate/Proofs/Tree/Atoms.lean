import QueryTemplate.Proofs.Tree.SExpr
import QueryTemplate.Proofs.Tree.Writing
import QueryTemplate.Proofs.Value.Displayed

/-!
# The atoms of dumps

Names and literals are dumped as atoms, and no two different ones as the same atom. All but the numbers with a point are
read from their texts (`Spells`), so the text determines what it is the text of. That of a number with a point has the
point in it, which tells it apart from the others (`isSolid_ofFloat`). Of these numbers themselves it has to be assumed
that different ones have different texts (`ToldApart`).
-/

namespace QueryTemplate

open Lexeme

/-! ## Characters that separate no items -/

section Atoms

variable {s : String}

theorem isSolid_of_isWordPart {c : Char} (h : isWordPart c = true) : isSolid c = true := by
  simp only [isSolid, Bool.and_eq_true, bne_iff_ne]
  refine ⟨⟨⟨⟨?_, ?_⟩, ?_⟩, ?_⟩, ?_⟩ <;> (rintro rfl; cases h)

theorem IsWord.isSolid {cs : List Char} (h : IsWord cs) : IsSolid cs := by
  obtain ⟨c, ds, rfl, hc, hds⟩ := h
  exact ⟨nofun, List.forall_mem_cons.2 ⟨isSolid_of_isWordPart (isWordPart_of_isWordStart hc),
    fun d hd => isSolid_of_isWordPart (hds d hd)⟩⟩

theorem IsDigits.isSolid {cs : List Char} (h : IsDigits cs) : IsSolid cs :=
  ⟨h.1, fun c hc => isSolid_of_isWordPart (isWordPart_of_isDigit (h.2 c hc))⟩

theorem isDigits_toString {n : Int} (h : 0 ≤ n) : IsDigits (toString n).toList := by
  rw [toList_toString_of_nonneg h]
  exact ⟨by simp, (digitsValue_toDigits _).2⟩

theorem IsName.isSolid (h : IsName s) : IsSolid s.toList := by
  rcases h with ⟨hw, -⟩ | ⟨cs, hs, hw⟩
  · exact hw.isSolid
  · rw [hs]
    exact ⟨nofun, List.forall_mem_cons.2 ⟨rfl, hw.isSolid.2⟩⟩

/-- Names with points between them. -/
theorem isSolid_intercalate {names : List (List Char)} (hne : names ≠ []) (h : ∀ cs ∈ names, IsSolid cs) :
    IsSolid (['.'].intercalate names) := by
  match names with
  | [] => exact absurd rfl hne
  | [cs] => simpa using h
  | cs :: cs' :: names =>
    obtain ⟨hcs, hnames⟩ := List.forall_mem_cons.1 h
    have hrest := isSolid_intercalate (List.cons_ne_nil cs' names) hnames
    rw [List.intercalate_cons_cons]
    exact ⟨by simp, List.forall_mem_append.2
      ⟨List.forall_mem_append.2 ⟨hcs.2, List.forall_mem_singleton.2 rfl⟩, hrest.2⟩⟩

theorem spelling_ofName (s : String) : (ofName s).spelling = s.toList := by
  unfold ofName
  split
  next cs hs => rw [hs, spelling]
  next => rw [spelling]

theorem toList_text_singleton (l : Lexeme) : (Lexeme.text [l]).toList = l.spelling := by
  rw [Lexeme.text, String.toList_ofList, List.flatMap_singleton]

end Atoms

/-! ## The texts of numbers with a point -/

/-- The lexeme of a number is spelled as its text with a point. -/
theorem spelling_ofFloat (x : Float) :
    (ofFloat x).spelling = (Floating.withPoint (Floating.decodeDouble x).plain).toList := by
  unfold ofFloat Floating.withPoint
  dsimp only
  generalize (Floating.decodeDouble x).plain = s
  have hsplit := List.takeWhile_append_dropWhile (p := (· != '.')) (l := s.toList)
  split
  next c fraction hdrop =>
    rw [hdrop] at hsplit
    obtain rfl : c = '.' := by
      have := List.head?_dropWhile_not (· != '.') s.toList
      simpa [hdrop] using this
    rw [if_pos (by rw [← hsplit]; simp), spelling, hsplit]
  next hdrop =>
    have hnone : s.toList.contains '.' = false := by
      rw [List.dropWhile_eq_nil_iff] at hdrop
      simpa using fun hmem => by simpa using hdrop '.' hmem
    rw [if_neg (by rw [hnone]; decide), spelling, String.toList_append]
    rfl

/-- Its characters separate no items, and a point is among them. -/
theorem isSolid_ofFloat (x : Float) : IsSolid (ofFloat x).spelling ∧ '.' ∈ (ofFloat x).spelling := by
  rw [spelling_ofFloat]
  have hsolid : ∀ {s : String}, s.toList.all isSolid = true → '.' ∈ s.toList → IsSolid s.toList ∧ '.' ∈ s.toList :=
    fun hall hpoint => ⟨⟨List.ne_nil_of_mem hpoint, List.all_eq_true.1 hall⟩, hpoint⟩
  cases Floating.decodeDouble x with
  | nan => exact hsolid (by decide) (by decide)
  | infinite negative => cases negative <;> exact hsolid (by decide) (by decide)
  | zero negative => cases negative <;> exact hsolid (by decide) (by decide)
  | finite negative m =>
    obtain ⟨ws, fs, hws, hfs, htext, -⟩ := m.shortest.withPoint_positional negative
    have hsign : (signCharacters negative).all isSolid = true := by cases negative <;> decide
    rw [Floating.Decoded.plain, htext]
    refine hsolid ?_ (by simp)
    have hdigits : ∀ {cs}, AreDigits cs → cs.all isSolid = true := fun h => List.all_eq_true.2 (IsDigits.isSolid h).2
    simp only [String.toList_ofList, List.all_append, List.all_cons, hsign, hdigits hws, hdigits hfs]
    rfl

/-! ## The texts of literals and names -/

/-- A text that is read as a symbol, and is not that of a number with a point. -/
def Spells (cs : List Char) (y : Symbol) : Prop := Cuts cs [y] [] ∧ ∀ x, cs ≠ (ofFloat x).spelling

theorem Spells.inj {cs : List Char} {y z : Symbol} (h : Spells cs y) (h' : Spells cs z) : y = z := by
  obtain ⟨ts, ht, hy⟩ := h.1.tokensFrom (.ofString "") 0
  obtain ⟨us, hu, hz⟩ := h'.1.tokensFrom (.ofString "") 0
  rw [ht] at hu
  rw [List.append_cancel_right (Except.ok.inj hu), hz] at hy
  exact (List.cons.inj hy).1.symm

theorem spells_name {s : String} (h : IsName s) : Spells s.toList (.identifier, .text s) := by
  constructor
  · have hcuts : Cuts ((ofName s).spelling ++ []) [(.identifier, .text s)] [] := cuts_name h nofun
    rwa [List.append_nil, spelling_ofName] at hcuts
  · intro x hx
    exact not_mem_of_isName h (hx ▸ (isSolid_ofFloat x).2)

/-- A literal that is no number with a point is read from its text. -/
theorem spells_literal {l : Literal} (h : Symbol.Lexed l.symbol) (hl : ¬∃ x, l = .float x) :
    Spells (ofLiteral l).spelling l.symbol := by
  have hwritten : Symbol.Written l.symbol := by
    refine ⟨h, fun x hx => absurd ⟨x, ?_⟩ hl⟩
    cases l with
    | bool b => cases b <;> cases hx
    | float =>
      cases hx
      rfl
    | _ => cases hx
  have hcuts : Cuts ((ofLiteral l).spelling ++ []) [l.symbol] [] := cuts_literal hwritten ⟨nofun, rfl⟩
  rw [List.append_nil] at hcuts
  refine ⟨hcuts, fun x hx => ?_⟩
  have hdigits : ∀ {cs}, IsDigits cs → cs ≠ (ofFloat x).spelling := fun hcs he => by
    cases hcs.2 '.' (he ▸ (isSolid_ofFloat x).2)
  cases l with
  | null => exact absurd (hx ▸ (isSolid_ofFloat x).2) (by decide)
  | bool b => cases b <;> exact absurd (hx ▸ (isSolid_ofFloat x).2) (by decide)
  | int n => exact hdigits (isDigits_toString h) hx
  | bigInt digits => exact hdigits h.1 hx
  | float y => exact hl ⟨y, rfl⟩
  | string s => exact (isSolid_ofFloat x).1.append_ne (r := []) _ (by rw [← hx, List.append_nil]; rfl)

theorem isAtom_literal {l : Literal} (h : Symbol.Lexed l.symbol) : IsAtom (ofLiteral l).spelling := by
  cases l with
  | null => exact .inl ⟨nofun, List.all_eq_true.1 rfl⟩
  | bool b => cases b <;> exact .inl ⟨nofun, List.all_eq_true.1 rfl⟩
  | int n => exact .inl (isDigits_toString h).isSolid
  | bigInt digits => exact .inl h.1.isSolid
  | float x => exact .inl (isSolid_ofFloat x).1
  | string s => exact .inr ⟨s.toList, rfl⟩

theorem Literal.symbol_inj {l l' : Literal} (h : l.symbol = l'.symbol) : l = l' := by
  rcases l with _ | (_ | _) | _ | _ | _ | _ <;> rcases l' with _ | (_ | _) | _ | _ | _ | _ <;> cases h <;> rfl

/-- No literal has the text of a name. -/
theorem literal_ne_name {l : Literal} {s : String} (h : Symbol.Lexed l.symbol) (hs : IsName s) :
    (ofLiteral l).spelling ≠ s.toList := by
  intro he
  by_cases hfloat : ∃ x, l = .float x
  · obtain ⟨x, rfl⟩ := hfloat
    exact (spells_name hs).2 x he.symm
  · have hsymbol := (spells_literal h hfloat).inj (he ▸ spells_name hs)
    rcases l with _ | (_ | _) | _ | _ | _ | _ <;> cases hsymbol

/-! ## Telling literals apart -/

/-- Two classes of symbols of texts. A number with a point of the one and a different one of the other have different
texts. -/
structure ToldApart (P Q : Symbol → Prop) : Prop where
  lexed : ∀ y, P y → Symbol.Lexed y
  lexed' : ∀ y, Q y → Symbol.Lexed y
  ofFloat_inj : ∀ x y, P (.number, .decimal x) → Q (.number, .decimal y) →
    (ofFloat x).spelling = (ofFloat y).spelling → x = y

theorem ToldApart.literal_inj {P Q : Symbol → Prop} (ht : ToldApart P Q) {l l' : Literal} (h : P l.symbol)
    (h' : Q l'.symbol) (he : (ofLiteral l).spelling = (ofLiteral l').spelling) : l = l' := by
  by_cases hl : ∃ x, l = .float x
  · obtain ⟨x, rfl⟩ := hl
    by_cases hl' : ∃ y, l' = .float y
    · obtain ⟨y, rfl⟩ := hl'
      rw [ht.ofFloat_inj x y h h' he]
    · exact absurd he.symm ((spells_literal (ht.lexed' _ h') hl').2 x)
  · have hspells := spells_literal (ht.lexed _ h) hl
    by_cases hl' : ∃ y, l' = .float y
    · obtain ⟨y, rfl⟩ := hl'
      exact absurd he (hspells.2 y)
    · exact Literal.symbol_inj (hspells.inj (he ▸ spells_literal (ht.lexed' _ h') hl'))

end QueryTemplate
