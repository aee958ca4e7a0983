import Mathlib
import QueryTemplate.Proofs.Excerpt
import QueryTemplate.Proofs.Token.Joined

/-!
# Positions in the order of bytes

A byte further on has a position further on, and a position says which byte it is of: the column counts from the
newline that opens the line, and on the first line from the start of the text (`positions_identify_bytes`). For the
order it is enough that the newlines up to a byte are among those up to a later one (`LineIndex.opened_sublist`). The
byte is found by its line, as for an excerpt (`LineIndex.exists_opened_eq`).

Lines and columns are held to a limit. Of the texts whose size is within it just one has a line beyond it, the text of
as many newlines and nothing else (`LineIndex.opensUnnumbered_of_limit_le`), and there the last two bytes have one
position (`positions_collide_at_limit`).
-/

namespace QueryTemplate

/-! ## The byte of a position -/

/-- Whether the newline at a byte opens a line: the first newline of a text opens the second line. -/
def NewlineOpens (source : String) (line offset : Nat) : Prop :=
  ∃ before after, source.toList = before ++ '\n' :: after ∧ before.count '\n' + 2 = line ∧ byteCount before = offset

/-- Whether a byte is where a position says: at the column on the first line, and as far behind the newline that opens
the line on a later one. -/
def Position.IsOf (source : String) (p : Position) (offset : Nat) : Prop :=
  if p.line = 1 then offset = p.column else ∃ n, NewlineOpens source p.line n ∧ offset = n + p.column

/-- The last byte of a text of newlines only, as many as lines have numbers. It opens a line that has no number. -/
def OpensUnnumbered (source : String) (offset : Nat) : Prop :=
  source.toList = List.replicate LineIndex.limit '\n' ∧ offset + 1 = LineIndex.limit

/-- A newline is found among all newlines by how many come before it. -/
theorem getElem?_newlineOffsets (before after : List Char) :
    (newlineOffsets 0 (before ++ '\n' :: after))[before.count '\n']? = some (byteCount before) := by
  have hlength := length_newlineOffsets 0 before
  rw [newlineOffsets_append, newlineOffsets_cons, List.getElem?_append_right (Nat.le_of_eq hlength), hlength,
    Nat.sub_self, if_pos rfl, Nat.zero_add]
  rfl

/-- A line is opened by one newline. -/
theorem newlineOpens_iff {source : String} {before after : List Char} {n : Nat}
    (h : source.toList = before ++ '\n' :: after) :
    NewlineOpens source (before.count '\n' + 2) n ↔ n = byteCount before := by
  constructor
  · rintro ⟨b, a, hs, hcount, rfl⟩
    have hfound := getElem?_newlineOffsets b a
    rw [← hs, h, Nat.add_right_cancel hcount, getElem?_newlineOffsets] at hfound
    exact (Option.some.inj hfound).symm
  · rintro rfl
    exact ⟨before, after, h, rfl, rfl⟩

namespace LineIndex

variable {source : String} {a b o : Nat}

/-! ## Newlines up to a byte -/

/-- The newlines up to a byte are those before its line. -/
theorem exists_opened_eq (ho : o < source.utf8ByteSize) : ∃ before line after,
    IsLine source.toList before line after ∧ (ofString source).opened o = newlineOffsets 0 before ∧
      byteCount before ≤ o + 1 := by
  obtain ⟨before, line, after, hline, hnewlines, hwithin, hopens⟩ := exists_isLine_at ho
  have hbounds : byteCount before ≤ o + 1 ∧ o < byteCount before + byteCount line := by
    by_cases hbyte : byteAt? source o = some 10
    · have := hopens hbyte
      omega
    · have := hwithin hbyte
      omega
  refine ⟨before, line, after, hline, ?_, hbounds.1⟩
  rw [ofString_eq]
  exact hline.opened_eq hnewlines hbounds.2

theorem length_opened_le (ho : o < source.utf8ByteSize) : ((ofString source).opened o).length ≤ o + 1 := by
  obtain ⟨before, _, _, _, hopened, hle⟩ := exists_opened_eq ho
  have hcount := count_newline_le before
  rw [hopened, length_newlineOffsets]
  omega

/-- A later byte has the same newlines and maybe more. -/
theorem opened_sublist (index : LineIndex) (h : a ≤ b) : (index.opened a).Sublist (index.opened b) := by
  refine List.monotone_filter_right _ fun n hn => ?_
  simp only [decide_eq_true_eq] at hn ⊢
  omega

theorem getLastD_opened_le (index : LineIndex) (o : Nat) : (index.opened o).getLastD 0 ≤ o := by
  rcases (index.opened o).eq_nil_or_concat with h | ⟨before, last, h⟩
  · rw [h]
    exact Nat.zero_le o
  · rw [List.concat_eq_append] at h
    have hmem : last ∈ index.opened o := by
      rw [h]
      exact List.mem_concat_self
    rw [h, List.getLastD_concat]
    simpa using (List.mem_filter.1 hmem).2

/-- A text within the limit has as many newlines up to a byte only if it has nothing else, and the byte is the last. -/
theorem opensUnnumbered_of_limit_le (ho : o < source.utf8ByteSize) (hsize : source.utf8ByteSize ≤ limit)
    (h : limit ≤ ((ofString source).opened o).length) : OpensUnnumbered source o := by
  have hle := length_opened_le ho
  have hcount : limit ≤ source.toList.count '\n' := by
    rw [← length_newlineOffsets 0]
    exact Nat.le_trans h (List.length_filter_le _ _)
  have hbytes := count_newline_le source.toList
  rw [byteCount_toList] at hbytes
  have hall : source.toList.count '\n' = limit := by omega
  refine ⟨?_, by omega⟩
  rw [← hall]
  exact eq_replicate_of_count (by rw [byteCount_toList]; omega)

/-! ## Order -/

/-- A byte further on has a position further on. -/
theorem position_lt_position (hab : a < b) (hb : b < source.utf8ByteSize) (hsize : source.utf8ByteSize ≤ limit)
    (hlimit : ¬(OpensUnnumbered source b ∧ a + 1 = b)) :
    (ofString source).position a < (ofString source).position b := by
  have hsub := (ofString source).opened_sublist (Nat.le_of_lt hab)
  rw [position_eq, position_eq, Position.lt_iff]
  dsimp only
  rcases Nat.eq_or_lt_of_le hsub.length_le with heq | hlt
  · -- There is no newline in between.
    have hlast := getLastD_opened_le (ofString source) a
    rw [hsub.eq_of_length heq] at hlast ⊢
    omega
  · have hnumbered : ((ofString source).opened a).length + 1 < limit := by
      by_contra hge
      have hle := length_opened_le (Nat.lt_trans hab hb)
      have hlast := opensUnnumbered_of_limit_le hb hsize (by omega)
      have hoffset := hlast.2
      exact hlimit ⟨hlast, by omega⟩
    omega

/-! ## The byte from its position -/

/-- A position is of one byte. -/
theorem isOf_position_iff (ho : o < source.utf8ByteSize) (hsize : source.utf8ByteSize ≤ limit)
    (hlimit : ¬OpensUnnumbered source o) (m : Nat) : ((ofString source).position o).IsOf source m ↔ m = o := by
  obtain ⟨before, line, after, hline, hopened, hle⟩ := exists_opened_eq ho
  have hnumbered : before.count '\n' + 1 ≤ limit := by
    by_contra hge
    refine hlimit (opensUnnumbered_of_limit_le ho hsize ?_)
    rw [hopened, length_newlineOffsets]
    omega
  have hposition : (ofString source).position o = ⟨before.count '\n' + 1, o - (byteCount before - 1)⟩ := by
    rw [position_eq, hopened, length_newlineOffsets, hline.getLastD_newlineOffsets, Nat.min_eq_left hnumbered,
      Nat.min_eq_left (by omega)]
  rw [hposition, Position.IsOf]
  dsimp only
  rcases hline.opened with rfl | ⟨pre, rfl⟩
  · -- The first line has no newline in front.
    exact Iff.rfl
  · have hsource : source.toList = pre ++ '\n' :: (line ++ after) := by
      rw [hline.eq, List.append_assoc, List.append_assoc, List.singleton_append]
    have hcount : (pre ++ ['\n']).count '\n' + 1 = pre.count '\n' + 2 := by simp
    have hbytes : byteCount (pre ++ ['\n']) = byteCount pre + 1 := byteCount_append _ _
    rw [hcount, if_neg (by omega), hbytes, Nat.add_sub_cancel]
    constructor
    · rintro ⟨n, hn, rfl⟩
      rw [(newlineOpens_iff hsource).1 hn]
      omega
    · rintro rfl
      exact ⟨byteCount pre, (newlineOpens_iff hsource).2 rfl, by omega⟩

end LineIndex

/-! ## Tokens -/

namespace Piece

variable {index : LineIndex} {offset stop : Nat} {ps : List Piece} {cs rest : List Char} {t : Token}

theorem Longest.byteCount_pos {p : Piece} (h : p.Longest rest) : 0 < byteCount p.text := by
  obtain ⟨c, cs, hc⟩ := List.exists_cons_of_ne_nil (Pattern.ne_nil_of_mem h.matched)
  rw [hc, byteCount_cons]
  exact Nat.add_pos_left c.utf8Size_pos _

/-- A token has the position of a byte of the text that it is cut from. -/
theorem Cut.exists_offset (h : Cut ps cs rest) (ht : t ∈ tokens index offset ps) :
    ∃ o, offset ≤ o ∧ o < offset + byteCount cs ∧ t.position = index.position o := by
  obtain ⟨before, p, mid, -, hcut, hp, -, hposition⟩ := h.of_mem_tokens ht
  have hpos := hp.byteCount_pos
  refine ⟨_, Nat.le_add_right _ _, ?_, hposition⟩
  rw [hcut.text_eq, byteCount_append, byteCount_append]
  omega

/-- Each token has the position of a byte behind those of the tokens before it. -/
theorem Cut.pairwise_tokens (h : Cut ps cs rest) (hstop : offset + byteCount cs ≤ stop) :
    (tokens index offset ps).Pairwise fun s t =>
      ∃ a b, a < b ∧ b < stop ∧ s.position = index.position a ∧ t.position = index.position b := by
  induction h generalizing offset with
  | refl rest => exact .nil
  | @cons p ps mid rest hp hcut ih =>
    have hpos := hp.byteCount_pos
    rw [byteCount_append, ← Nat.add_assoc] at hstop
    refine List.pairwise_append.2 ⟨?_, ih hstop, fun s hs t ht => ?_⟩
    · cases p.symbol? with
      | none => exact .nil
      | some symbol => exact List.pairwise_singleton _ _
    · obtain ⟨symbol, -, rfl⟩ := Option.map_eq_some_iff.1 (Option.mem_toList.1 hs)
      obtain ⟨o, hle, hlt, hposition⟩ := hcut.exists_offset ht
      exact ⟨offset, o, by omega, by omega, rfl, hposition⟩

end Piece

open Piece

/-- A text of blanks has no tokens. -/
theorem tokenize_of_blank {source : String} (h : ∀ c ∈ source.toList, isBlank c = true) :
    tokenize source = .ok [Token.endOfInput] := by
  rw [tokenize, ← List.append_nil source.toList, tokensFrom_blanks h, tokensFrom]

/-- The tokens of a text within the limit have positions further and further on. -/
theorem pairwise_positions {source : String} {ts : List Token} (hsize : source.utf8ByteSize ≤ LineIndex.limit)
    (h : tokenize source = .ok ts) :
    ((ts.filter (·.kind ≠ .endOfInput)).map Token.position).Pairwise (· < ·) := by
  by_cases hnewlines : source.toList = List.replicate LineIndex.limit '\n'
  · -- The one text with a line beyond the limit has no tokens.
    rw [tokenize_of_blank (by rw [hnewlines]; exact List.forall_mem_replicate.2 (.inr rfl))] at h
    cases h
    exact .nil
  · obtain ⟨ps, hps, -, rfl⟩ := tokenize_eq_ok h
    have hend : [Token.endOfInput].filter (·.kind ≠ .endOfInput) = [] := rfl
    have hkept : (tokens (.ofChars source.toList) 0 ps).filter (·.kind ≠ .endOfInput) =
        tokens (.ofChars source.toList) 0 ps :=
      List.filter_eq_self.2 fun t ht => decide_eq_true (hps.kind_ne t ht)
    rw [List.filter_append, hend, List.append_nil, hkept, List.pairwise_map, ← LineIndex.ofString_eq]
    have hstop : 0 + byteCount source.toList ≤ source.utf8ByteSize := by rw [Nat.zero_add, byteCount_toList]
    refine (hps.pairwise_tokens hstop).imp ?_
    rintro s t ⟨a, b, hab, hb, hs, ht⟩
    rw [hs, ht]
    exact LineIndex.position_lt_position hab hb hsize fun hlast => hnewlines hlast.1.1

/-! ## Where the limit shows -/

namespace LineIndex

/-- A newline is in column 0 of the line that it opens. -/
theorem position_newline (before after : List Char) :
    (ofChars (before ++ '\n' :: after)).position (byteCount before) = ⟨min (before.count '\n' + 2) limit, 0⟩ := by
  have hline : IsLine (before ++ ['\n']) (before ++ ['\n']) [] [] :=
    ⟨by simp, List.not_mem_nil, .inr ⟨before, rfl⟩, .inl rfl⟩
  have hbytes : byteCount (before ++ ['\n']) = byteCount before + 1 := byteCount_append _ _
  have hcount : (before ++ ['\n']).count '\n' = before.count '\n' + 1 := by simp
  have hnewlines : ∀ n ∈ newlineOffsets 0 (before ++ ['\n']), n ≤ byteCount before := fun n hn => by
    have := (mem_newlineOffsets _ _ hn).2
    omega
  rw [← List.singleton_append, ← List.append_assoc, position_append (by omega),
    hline.position hnewlines (by rw [hbytes, byteCount_nil]; omega), hbytes, hcount, Nat.add_sub_cancel, Nat.sub_self]
  rfl

/-- In a text of newlines only each byte opens a line. -/
theorem position_replicate_newline {n o : Nat} (h : o < n) :
    (ofChars (List.replicate n '\n')).position o = ⟨min (o + 2) limit, 0⟩ := by
  have hsplit : List.replicate n '\n' = List.replicate o '\n' ++ '\n' :: List.replicate (n - (o + 1)) '\n' := by
    rw [← List.replicate_succ, ← List.replicate_add]
    congr 1
    omega
  have hbytes : byteCount (List.replicate o '\n') = o := (byteCount_replicate o _).trans (Nat.mul_one o)
  have hposition := position_newline (List.replicate o '\n') (List.replicate (n - (o + 1)) '\n')
  rwa [← hsplit, hbytes, List.count_replicate_self] at hposition

/-- A text without newlines has one line. -/
theorem position_of_notMem {cs : List Char} (h : '\n' ∉ cs) (o : Nat) : (ofChars cs).position o = ⟨1, min o limit⟩ := by
  have hnone : newlineOffsets 0 cs = [] := by
    rw [← List.length_eq_zero_iff, length_newlineOffsets, List.count_eq_zero]
    exact h
  rw [position_eq, opened, ofChars, hnone]
  rfl

end LineIndex

/-- Two names behind as many blanks as columns have numbers. -/
theorem tokenize_names_behind {n : Nat} (hn : LineIndex.limit ≤ n) :
    tokenize (String.ofList (List.replicate n ' ' ++ ['a', ' ', 'b'])) =
      .ok [⟨.identifier, .text "a", ⟨1, LineIndex.limit⟩⟩, ⟨.identifier, .text "b", ⟨1, LineIndex.limit⟩⟩,
        Token.endOfInput] := by
  have hbytes : byteCount (List.replicate n ' ') = n := (byteCount_replicate n _).trans (Nat.mul_one n)
  have hline : '\n' ∉ List.replicate n ' ' ++ ['a', ' ', 'b'] := by simp
  have hposition : ∀ o, n ≤ o → (LineIndex.ofChars (List.replicate n ' ' ++ ['a', ' ', 'b'])).position o =
      ⟨1, LineIndex.limit⟩ := fun o ho => by
    rw [LineIndex.position_of_notMem hline, Nat.min_eq_right (by omega)]
  have ha : Lexeme.front 'a' [' ', 'b'] = .lexeme (.word ['a']) [' ', 'b'] := by decide
  have hspace : Lexeme.front ' ' ['b'] = .lexeme (.blank [' ']) ['b'] := by decide
  have hb : Lexeme.front 'b' [] = .lexeme (.word ['b']) [] := by decide
  have hnameA : (Lexeme.word ['a']).meaning = .token .identifier (.text "a") := by cbv
  have hnameB : (Lexeme.word ['b']).meaning = .token .identifier (.text "b") := by cbv
  rw [tokenize, LineIndex.ofString_eq, String.toList_ofList,
    tokensFrom_blanks (List.forall_mem_replicate.2 (.inr rfl)), hbytes, Nat.zero_add, tokensFrom_lexeme ha, hnameA,
    hposition n (Nat.le_refl n)]
  dsimp only
  rw [tokensFrom_lexeme hspace]
  dsimp only [Lexeme.meaning]
  rw [tokensFrom_lexeme hb, hnameB, hposition _ (by omega)]
  dsimp only
  rw [tokensFrom]
  rfl

/-! ## Positions and bytes -/

/-- In a text of fewer than 2 ^ 32 bytes a byte further on has a position further on, and each byte is found again from
its position: on the first line it is at the column, and on a later one as far behind the newline that opens the line.
The exception is the last byte of a text of newlines only, as many as lines have numbers: it is not found again, and
does not come after the byte before it. The tokens of all such texts have positions further and further on, no two of
them the same. -/
theorem positions_identify_bytes {source : String} (hsize : source.utf8ByteSize < 2 ^ 32) :
    (∀ a b, a < b → b < source.utf8ByteSize → ¬(OpensUnnumbered source b ∧ a + 1 = b) →
      (LineIndex.ofString source).position a < (LineIndex.ofString source).position b) ∧
    (∀ o, o < source.utf8ByteSize → ¬OpensUnnumbered source o →
      ∀ m, ((LineIndex.ofString source).position o).IsOf source m ↔ m = o) ∧
    ∀ ts, tokenize source = .ok ts →
      ((ts.filter (·.kind ≠ .endOfInput)).map Token.position).Pairwise (· < ·) ∧
      ((ts.filter (·.kind ≠ .endOfInput)).map Token.position).Nodup := by
  have hlimit : source.utf8ByteSize ≤ LineIndex.limit := Nat.le_of_lt_succ hsize
  refine ⟨fun a b hab hb hne => LineIndex.position_lt_position hab hb hlimit hne,
    fun o ho hne => LineIndex.isOf_position_iff ho hlimit hne, fun ts hts => ?_⟩
  have hincreasing := pairwise_positions hlimit hts
  exact ⟨hincreasing, hincreasing.imp Position.ne_of_lt⟩

/-- A text that starts with a newline, has two of them in a row and ends with one. -/
theorem positions_identify_bytes_of_newlines :
    let source := "\na\n\nb\n"
    let index := LineIndex.ofString source
    let names : List Token :=
      [⟨.identifier, .text "a", ⟨2, 1⟩⟩, ⟨.identifier, .text "b", ⟨4, 1⟩⟩, Token.endOfInput]
    source.utf8ByteSize < 2 ^ 32 ∧ 2 < 3 ∧ 3 < source.utf8ByteSize ∧ ¬(OpensUnnumbered source 3 ∧ 2 + 1 = 3) ∧
    5 < source.utf8ByteSize ∧ ¬OpensUnnumbered source 5 ∧ tokenize source = .ok names ∧
    index.position 2 < index.position 3 ∧ (∀ m, (index.position 5).IsOf source m ↔ m = 5) ∧
    ((names.filter (·.kind ≠ .endOfInput)).map Token.position).Pairwise (· < ·) ∧
    ((names.filter (·.kind ≠ .endOfInput)).map Token.position).Nodup := by
  intro source index names
  have hsize : source.utf8ByteSize < 2 ^ 32 := by decide
  have hnames : tokenize source = .ok names := by cbv
  obtain ⟨horder, hbyte, htokens⟩ := positions_identify_bytes hsize
  have h₃ : ¬(OpensUnnumbered source 3 ∧ 2 + 1 = 3) := fun h => absurd h.1.2 (by decide)
  have h₅ : ¬OpensUnnumbered source 5 := fun h => absurd h.2 (by decide)
  exact ⟨hsize, by decide, by decide, h₃, by decide, h₅, hnames, horder 2 3 (by decide) (by decide) h₃,
    hbyte 5 (by decide) h₅, htokens names hnames⟩

/-- The last two bytes of a text of newlines only: the last one opens line 4294967296. In a text of more bytes tokens
share a position, too. -/
theorem positions_collide_at_limit :
    let source := String.ofList (List.replicate 4294967295 '\n')
    let index := LineIndex.ofString source
    let wide := String.ofList (List.replicate 4294967295 ' ' ++ ['a', ' ', 'b'])
    (source.utf8ByteSize < 2 ^ 32 ∧ 4294967294 < source.utf8ByteSize ∧
      index.position 4294967293 = ⟨4294967295, 0⟩ ∧ index.position 4294967294 = ⟨4294967295, 0⟩ ∧
      ¬index.position 4294967293 < index.position 4294967294 ∧
      ¬(index.position 4294967294).IsOf source 4294967294) ∧
    ∃ ts, tokenize wide = .ok ts ∧ ¬((ts.filter (·.kind ≠ .endOfInput)).map Token.position).Nodup := by
  intro source index wide
  have hsource : source.toList = List.replicate 4294967295 '\n' := String.toList_ofList
  have hsize : source.utf8ByteSize = 4294967295 := by
    rw [← byteCount_toList, hsource, byteCount_replicate]
    rfl
  have hindex : index = .ofChars (List.replicate 4294967295 '\n') := by rw [← hsource, ← LineIndex.ofString_eq]
  have hbefore : index.position 4294967293 = ⟨4294967295, 0⟩ := by
    rw [hindex, LineIndex.position_replicate_newline (by decide)]
    rfl
  have hlast : index.position 4294967294 = ⟨4294967295, 0⟩ := by
    rw [hindex, LineIndex.position_replicate_newline (by decide)]
    rfl
  have hbyte : ¬(index.position 4294967294).IsOf source 4294967294 := by
    rw [hlast, ← hbefore, LineIndex.isOf_position_iff (by rw [hsize]; decide) (by rw [hsize]; decide)
      (fun h => absurd h.2 (by decide))]
    decide
  refine ⟨⟨by rw [hsize]; decide, by rw [hsize]; decide, hbefore, hlast, ?_, hbyte⟩,
    _, tokenize_names_behind (Nat.le_refl _), by decide⟩
  rw [hbefore, hlast]
  decide

end QueryTemplate
