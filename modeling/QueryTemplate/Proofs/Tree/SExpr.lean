import QueryTemplate.Tree.SExpr
import QueryTemplate.Proofs.Token.Cutting

/-!
# Reading symbolic expressions

The text of a symbolic expression is that of no other one, and shows where it ends in a longer text
(`chars_append_inj`). What is asked of its atoms is that they are characters none of which separates items, or text in
quotes. So lines determine the expressions on them (`lines_inj`): a line end separates items.
-/

namespace QueryTemplate

/-! ## Atoms -/

/-- Whether a character can be part of an atom that is not in quotes. -/
def isSolid (c : Char) : Bool := c != ' ' && c != '(' && c != ')' && c != '"' && c != '\n'

/-- An atom that is not in quotes. -/
def IsSolid (cs : List Char) : Prop := cs ≠ [] ∧ ∀ c ∈ cs, isSolid c = true

theorem isSolid_iff {cs : List Char} : (!cs.isEmpty && cs.all isSolid) = true ↔ IsSolid cs := by
  simp [IsSolid]

instance : DecidablePred IsSolid := fun _ => decidable_of_iff _ isSolid_iff

/-- An atom: characters that separate no items, or text in quotes. -/
def IsAtom (cs : List Char) : Prop := IsSolid cs ∨ ∃ text, cs = '"' :: Quoted.encode text ++ ['"']

section Atoms

variable {cs ds r r' : List Char}

theorem IsSolid.eq_cons (h : IsSolid cs) : ∃ c ds, cs = c :: ds ∧ isSolid c = true := by
  obtain ⟨c, ds, rfl⟩ := List.exists_cons_of_ne_nil h.1
  exact ⟨c, ds, rfl, h.2 c List.mem_cons_self⟩

/-- No text starts both with an atom of one sort and with one of the other. -/
theorem IsSolid.append_ne (h : IsSolid cs) (ds : List Char) : cs ++ r ≠ '"' :: ds := by
  obtain ⟨c, cs, rfl, hc⟩ := h.eq_cons
  intro he
  rw [(List.cons.inj he).1] at hc
  cases hc

/-- An atom ends where the text goes on with what separates items. -/
theorem IsAtom.append_inj (h : IsAtom cs) (h' : IsAtom ds) (hr : HeadNot isSolid r) (hr' : HeadNot isSolid r')
    (he : cs ++ r = ds ++ r') : cs = ds ∧ r = r' := by
  have quoted : ∀ text rest : List Char,
      '"' :: Quoted.encode text ++ ['"'] ++ rest = '"' :: (Quoted.encode text ++ '"' :: rest) := by simp
  rcases h with h | ⟨text, rfl⟩
  · rcases h' with h' | ⟨text', rfl⟩
    · exact ⟨by rw [← hr.takeWhile h.2, he, hr'.takeWhile h'.2], by rw [← hr.dropWhile h.2, he, hr'.dropWhile h'.2]⟩
    · rw [quoted] at he
      exact absurd he (h.append_ne _)
  · rcases h' with h' | ⟨text', rfl⟩
    · rw [quoted] at he
      exact absurd he.symm (h'.append_ne _)
    · rw [quoted, quoted] at he
      have hbody := body?_encode text r
      rw [(List.cons.inj he).2, body?_encode text' r'] at hbody
      obtain ⟨htext, hrest⟩ := Prod.mk.inj (Option.some.inj hbody)
      exact ⟨by rw [htext], hrest.symm⟩

/-- An atom starts with neither a parenthesis nor a line end. -/
theorem IsAtom.eq_cons (h : IsAtom cs) : ∃ c ds, cs = c :: ds ∧ c ≠ '(' ∧ c ≠ ')' ∧ c ≠ '\n' := by
  rcases h with h | ⟨text, rfl⟩
  · obtain ⟨c, ds, rfl, hc⟩ := h.eq_cons
    refine ⟨c, ds, rfl, ?_⟩
    simp only [isSolid, Bool.and_eq_true, bne_iff_ne] at hc
    exact ⟨hc.1.1.1.2, hc.1.1.2, hc.2⟩
  · exact ⟨'"', _, rfl, by decide⟩

end Atoms

namespace SExpr

/-! ## Expressions -/

mutual

/-- Whether everything that is not a list is an atom. -/
def Readable : SExpr → Prop
  | atom s => IsAtom s.toList
  | list items => AllReadable items

/-- The same for the items of a list. -/
def AllReadable : List SExpr → Prop
  | [] => True
  | e :: es => e.Readable ∧ AllReadable es

end

theorem form_inj {head head' : String} {items items' : List SExpr} :
    form head items = form head' items' ↔ head = head' ∧ items = items' := by
  simp only [form, list.injEq, List.cons.injEq, atom.injEq]

theorem readable_form {head : String} {items : List SExpr} (h : IsSolid head.toList) (hi : AllReadable items) :
    (form head items).Readable := by
  simp only [form, Readable, AllReadable]
  exact ⟨.inl h, hi⟩

section Reading

variable {e f : SExpr} {es fs : List SExpr} {r r' : List Char}

/-- An expression starts with neither a closing parenthesis nor a line end. -/
theorem chars_eq_cons (h : e.Readable) : ∃ c cs, e.chars = c :: cs ∧ c ≠ ')' ∧ c ≠ '\n' := by
  cases e with
  | atom s =>
    rw [Readable] at h
    obtain ⟨c, cs, hcs, -, hc⟩ := h.eq_cons
    exact ⟨c, cs, by rw [chars, hcs], hc⟩
  | list items => exact ⟨'(', _, by rw [chars], by decide⟩

theorem headNot_charsOfFurther (es : List SExpr) (r : List Char) : HeadNot isSolid (charsOfFurther es ++ r) := by
  intro c hc
  cases es with
  | nil =>
    cases hc
    rfl
  | cons e es =>
    simp only [charsOfFurther, List.cons_append] at hc
    cases hc
    rfl

mutual

/-- An expression ends where its atoms do, and its text is that of no other one. -/
theorem chars_append_inj : ∀ {e f : SExpr} {r r' : List Char}, e.Readable → f.Readable → HeadNot isSolid r →
    HeadNot isSolid r' → e.chars ++ r = f.chars ++ r' → e = f ∧ r = r'
  | atom s, atom t, r, r', h, h', hr, hr', he => by
    simp only [Readable] at h h'
    simp only [chars] at he
    obtain ⟨hs, hrest⟩ := h.append_inj h' hr hr' he
    exact ⟨by rw [String.toList_inj.1 hs], hrest⟩
  | atom s, list fs, r, r', h, _, _, _, he => by
    simp only [Readable] at h
    obtain ⟨c, cs, hcs, hc, -⟩ := h.eq_cons
    simp only [chars, hcs, List.cons_append, List.cons.injEq] at he
    exact absurd he.1 hc
  | list es, atom t, r, r', _, h', _, _, he => by
    simp only [Readable] at h'
    obtain ⟨c, cs, hcs, hc, -⟩ := h'.eq_cons
    simp only [chars, hcs, List.cons_append, List.cons.injEq] at he
    exact absurd he.1.symm hc
  | list es, list fs, r, r', h, h', _, _, he => by
    simp only [Readable] at h h'
    simp only [chars, List.cons_append, List.cons.injEq, true_and] at he
    obtain ⟨hitems, hrest⟩ := charsOfItems_append_inj h h' he
    exact ⟨by rw [hitems], hrest⟩

/-- The closing parenthesis ends the items of a list. -/
theorem charsOfItems_append_inj : ∀ {es fs : List SExpr} {r r' : List Char}, AllReadable es → AllReadable fs →
    charsOfItems es ++ r = charsOfItems fs ++ r' → es = fs ∧ r = r'
  | [], [], r, r', _, _, he => ⟨rfl, (List.cons.inj he).2⟩
  | [], f :: fs, r, r', _, h', he => by
    obtain ⟨c, cs, hcs, hc, -⟩ := chars_eq_cons h'.1
    simp only [charsOfItems, hcs, List.cons_append, List.cons.injEq] at he
    exact absurd he.1.symm hc
  | e :: es, [], r, r', h, _, he => by
    obtain ⟨c, cs, hcs, hc, -⟩ := chars_eq_cons h.1
    simp only [charsOfItems, hcs, List.cons_append, List.cons.injEq] at he
    exact absurd he.1 hc
  | e :: es, f :: fs, r, r', h, h', he => by
    simp only [AllReadable] at h h'
    simp only [charsOfItems, List.append_assoc] at he
    obtain ⟨rfl, hfurther⟩ :=
      chars_append_inj h.1 h'.1 (headNot_charsOfFurther es r) (headNot_charsOfFurther fs r') he
    obtain ⟨rfl, hrest⟩ := charsOfFurther_append_inj h.2 h'.2 hfurther
    exact ⟨rfl, hrest⟩

/-- The same for the items after the first. -/
theorem charsOfFurther_append_inj : ∀ {es fs : List SExpr} {r r' : List Char}, AllReadable es → AllReadable fs →
    charsOfFurther es ++ r = charsOfFurther fs ++ r' → es = fs ∧ r = r'
  | [], [], r, r', _, _, he => ⟨rfl, (List.cons.inj he).2⟩
  | [], _ :: _, _, _, _, _, he => by cases he
  | _ :: _, [], _, _, _, _, he => by cases he
  | e :: es, f :: fs, r, r', h, h', he => by
    simp only [AllReadable] at h h'
    simp only [charsOfFurther, List.cons_append, List.append_assoc, List.cons.injEq, true_and] at he
    obtain ⟨rfl, hfurther⟩ :=
      chars_append_inj h.1 h'.1 (headNot_charsOfFurther es r) (headNot_charsOfFurther fs r') he
    obtain ⟨rfl, hrest⟩ := charsOfFurther_append_inj h.2 h'.2 hfurther
    exact ⟨rfl, hrest⟩

end

/-! ## Lines -/

/-- Expressions with a line for each. -/
def lines (es : List SExpr) : String := "\n".intercalate (es.map text)

/-- What comes after the first of some lines. -/
def furtherLines (es : List SExpr) : List Char := es.flatMap fun e => '\n' :: e.chars

theorem toList_lines_cons (e : SExpr) (es : List SExpr) : (lines (e :: es)).toList = e.chars ++ furtherLines es := by
  induction es generalizing e with
  | nil => simp [lines, text, furtherLines]
  | cons f fs ih =>
    have hstep : lines (e :: f :: fs) = e.text ++ "\n" ++ lines (f :: fs) := by
      simp [lines, String.intercalate_cons_cons]
    rw [hstep, String.toList_append, String.toList_append, ih, text, String.toList_ofList]
    simp [furtherLines]

theorem headNot_furtherLines (es : List SExpr) : HeadNot isSolid (furtherLines es) := by
  intro c hc
  cases es with
  | nil => cases hc
  | cons e es =>
    simp only [furtherLines, List.flatMap_cons, List.cons_append] at hc
    cases hc
    rfl

theorem furtherLines_inj (h : AllReadable es) (h' : AllReadable fs) (he : furtherLines es = furtherLines fs) :
    es = fs := by
  induction es generalizing fs with
  | nil =>
    cases fs with
    | nil => rfl
    | cons => cases he
  | cons e es ih =>
    cases fs with
    | nil => cases he
    | cons f fs =>
      simp only [AllReadable] at h h'
      simp only [furtherLines, List.flatMap_cons, List.cons_append, List.cons.injEq, true_and] at he
      obtain ⟨rfl, hrest⟩ := chars_append_inj h.1 h'.1 (headNot_furtherLines es) (headNot_furtherLines fs) he
      rw [ih h.2 h'.2 hrest]

/-- The lines of a dump determine the expressions on them. -/
theorem lines_inj (h : AllReadable es) (h' : AllReadable fs) (he : lines es = lines fs) : es = fs := by
  have hne : ∀ {e : SExpr} {es : List SExpr}, e.Readable → lines (e :: es) ≠ lines [] := fun h he => by
    obtain ⟨c, cs, hcs, -⟩ := chars_eq_cons h
    have hlist := congrArg String.toList he
    rw [toList_lines_cons, hcs] at hlist
    cases hlist
  cases es with
  | nil =>
    cases fs with
    | nil => rfl
    | cons f fs => exact absurd he.symm (hne h'.1)
  | cons e es =>
    cases fs with
    | nil => exact absurd he (hne h.1)
    | cons f fs =>
      have hlist := congrArg String.toList he
      rw [toList_lines_cons, toList_lines_cons] at hlist
      simp only [AllReadable] at h h'
      obtain ⟨rfl, hrest⟩ := chars_append_inj h.1 h'.1 (headNot_furtherLines es) (headNot_furtherLines fs) hlist
      rw [furtherLines_inj h.2 h'.2 hrest]

end Reading

end SExpr

end QueryTemplate
