import QueryTemplate.Proofs.Token.Offsets

/-!
# Lines of texts put together

The newlines of a text are those of its parts (`newlineOffsets_append`). So a position in the first part stays what it
is, whatever follows (`LineIndex.position_append`), and a position in a text that is put below another one is moved
(`Position.below`, `LineIndex.position_below`): there are more lines before it, and what has stood on the first line
stands behind a newline now.
-/

namespace QueryTemplate

section

variable (start : Nat) (cs ds : List Char)

theorem newlineOffsets_cons (c : Char) : newlineOffsets start (c :: cs) =
    (if c = '\n' then [start] else []) ++ newlineOffsets (start + c.utf8Size) cs := by
  rw [newlineOffsets]
  split
  next hc =>
    subst hc
    rfl
  next => rfl

theorem newlineOffsets_append :
    newlineOffsets start (cs ++ ds) = newlineOffsets start cs ++ newlineOffsets (start + byteCount cs) ds := by
  induction cs generalizing start with
  | nil => rfl
  | cons c cs ih =>
    rw [List.cons_append, newlineOffsets_cons, newlineOffsets_cons, ih, List.append_assoc, byteCount_cons,
      Nat.add_assoc]

/-- In a text that starts further behind all newlines are as much further behind. -/
theorem newlineOffsets_add (k : Nat) : newlineOffsets (k + start) cs = (newlineOffsets start cs).map (k + ·) := by
  induction cs generalizing start with
  | nil => rfl
  | cons c cs ih =>
    rw [newlineOffsets_cons, newlineOffsets_cons, Nat.add_assoc, ih, List.map_append]
    congr 1
    split <;> rfl

theorem mem_newlineOffsets {o : Nat} (h : o ∈ newlineOffsets start cs) : start ≤ o ∧ o < start + byteCount cs := by
  induction cs generalizing start with
  | nil => cases h
  | cons c cs ih =>
    have hc := c.utf8Size_pos
    rw [newlineOffsets_cons, List.mem_append] at h
    rw [byteCount_cons]
    rcases h with h | h
    · split at h
      · obtain rfl := List.mem_singleton.1 h
        omega
      · cases h
    · have := ih _ h
      omega

theorem length_newlineOffsets : (newlineOffsets start cs).length = cs.count '\n' := by
  induction cs generalizing start with
  | nil => rfl
  | cons c cs ih =>
    rw [newlineOffsets_cons, List.length_append, ih, List.count_cons]
    by_cases hc : c = '\n'
    · simp [hc, Nat.add_comm]
    · simp [hc]

theorem count_newline_le : cs.count '\n' ≤ byteCount cs := by
  induction cs with
  | nil => exact Nat.le_refl _
  | cons c cs ih =>
    have hc := c.utf8Size_pos
    rw [List.count_cons, byteCount_cons]
    split <;> omega

/-- A text of as many newlines as bytes has nothing else. -/
theorem eq_replicate_of_count {cs : List Char} (h : byteCount cs ≤ cs.count '\n') :
    cs = List.replicate (cs.count '\n') '\n' := by
  induction cs with
  | nil => rfl
  | cons c cs ih =>
    have hc := c.utf8Size_pos
    have hle := count_newline_le cs
    rw [byteCount_cons, List.count_cons] at h
    have hnewline : c = '\n' := by
      by_contra hne
      rw [if_neg (mt beq_iff_eq.1 hne)] at h
      omega
    subst hnewline
    have hsize : '\n'.utf8Size = 1 := rfl
    rw [if_pos (beq_self_eq_true _)] at h
    rw [List.count_cons_self, List.replicate_succ, ← ih (by omega)]

end

/-- A position in a text, as it is when the text is put below another one with one newline less than `lines`. What has
stood on the first line is in the next column. -/
def Position.below (lines : Nat) (p : Position) : Position :=
  ⟨min (p.line + lines) LineIndex.limit, if p.line = 1 then min (p.column + 1) LineIndex.limit else p.column⟩

/-- The same without the limit on lines and columns. -/
def Position.shifted (lines : Nat) (p : Position) : Position :=
  ⟨p.line + lines, if p.line = 1 then p.column + 1 else p.column⟩

theorem Position.below_eq_shifted {lines : Nat} {p : Position} (hl : p.line + lines ≤ LineIndex.limit)
    (hc : p.column < LineIndex.limit) : p.below lines = p.shifted lines := by
  rw [below, shifted, Nat.min_eq_left hl, Nat.min_eq_left hc]

namespace LineIndex

/-- The line index of characters. -/
def ofChars (cs : List Char) : LineIndex := ⟨newlineOffsets 0 cs, byteCount cs⟩

theorem ofString_eq (s : String) : ofString s = ofChars s.toList := by
  rw [ofString, ofChars, byteCount_toList]

/-- The newlines up to a byte. -/
def opened (index : LineIndex) (offset : Nat) : List Nat := index.newlines.filter (· ≤ offset)

theorem position_eq (index : LineIndex) (offset : Nat) : index.position offset =
    ⟨min ((index.opened offset).length + 1) limit, min (offset - (index.opened offset).getLastD 0) limit⟩ := rfl

theorem column_position_le (index : LineIndex) (offset : Nat) : (index.position offset).column ≤ offset :=
  Nat.le_trans (Nat.min_le_left _ _) (Nat.sub_le _ _)

theorem line_position_pos (index : LineIndex) (offset : Nat) : 0 < (index.position offset).line :=
  Nat.lt_min.2 ⟨Nat.succ_pos _, by decide⟩

theorem line_position_le (cs : List Char) (offset : Nat) :
    ((ofChars cs).position offset).line ≤ cs.count '\n' + 1 := by
  refine Nat.le_trans (Nat.min_le_left _ _) (Nat.succ_le_succ ?_)
  rw [← length_newlineOffsets 0 cs]
  exact List.length_filter_le _ _

variable {cs ds : List Char} {o : Nat}

/-- What comes later does not move a position. -/
theorem position_append (h : o < byteCount cs) : (ofChars (cs ++ ds)).position o = (ofChars cs).position o := by
  have hopened : (ofChars (cs ++ ds)).opened o = (ofChars cs).opened o := by
    have hlater : (newlineOffsets (0 + byteCount cs) ds).filter (· ≤ o) = [] := by
      refine List.filter_eq_nil_iff.2 fun n hn => ?_
      have := (mem_newlineOffsets _ _ hn).1
      simp only [decide_eq_true_eq]
      omega
    rw [opened, opened, ofChars, ofChars, newlineOffsets_append, List.filter_append, hlater, List.append_nil]
  rw [position_eq, position_eq, hopened]

/-- Below another text there are its newlines and one more before those of the text itself. -/
theorem opened_below : (ofChars (cs ++ '\n' :: ds)).opened (byteCount cs + 1 + o) =
    newlineOffsets 0 cs ++ byteCount cs :: ((ofChars ds).opened o).map (byteCount cs + 1 + ·) := by
  have hbefore : (newlineOffsets 0 cs).filter (· ≤ byteCount cs + 1 + o) = newlineOffsets 0 cs := by
    refine List.filter_eq_self.2 fun n hn => ?_
    have := (mem_newlineOffsets _ _ hn).2
    simp only [decide_eq_true_eq]
    omega
  have hnewline : newlineOffsets (0 + byteCount cs) ('\n' :: ds) =
      byteCount cs :: (newlineOffsets 0 ds).map (byteCount cs + 1 + ·) := by
    rw [newlineOffsets_cons, if_pos rfl, Nat.zero_add]
    exact congrArg _ (newlineOffsets_add 0 ds (byteCount cs + 1))
  rw [opened, opened, ofChars, ofChars, newlineOffsets_append, List.filter_append, hbefore, hnewline, List.filter_cons,
    if_pos (by simp only [decide_eq_true_eq]; omega), List.filter_map]
  refine congrArg (fun l : List Nat => newlineOffsets 0 cs ++ byteCount cs :: l.map (byteCount cs + 1 + ·)) ?_
  refine List.filter_congr fun n _ => ?_
  simp only [Function.comp_apply, decide_eq_decide]
  omega

theorem position_below (cs : List Char) : (ofChars (cs ++ '\n' :: ds)).position (byteCount cs + 1 + o) =
    ((ofChars ds).position o).below (cs.count '\n' + 1) := by
  have hlimit : limit = 4294967295 := rfl
  rw [position_eq, position_eq, opened_below, List.length_append, length_newlineOffsets, List.length_cons,
    List.length_map, Position.below, Position.mk.injEq]
  dsimp only
  rcases ((ofChars ds).opened o).eq_nil_or_concat with ho | ⟨before, last, ho⟩
  · -- The newline between the texts is the last one before the place.
    have hline : min (0 + 1) limit = 1 := by omega
    rw [ho, List.map_nil, List.getLastD_concat, List.length_nil, if_pos hline, List.getLastD_nil]
    omega
  · have hline : ¬min ((before ++ [last]).length + 1) limit = 1 := by
      rw [List.length_append, List.length_singleton]
      omega
    rw [ho, List.concat_eq_append, if_neg hline, List.getLastD_concat, List.map_append, List.map_singleton,
      ← List.cons_append, ← List.append_assoc, List.getLastD_concat]
    omega

end LineIndex

end QueryTemplate
