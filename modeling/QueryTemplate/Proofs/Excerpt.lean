import Mathlib.Data.List.Induction
import Mathlib.Data.List.TakeWhile
import QueryTemplate.Diagnostic
import QueryTemplate.Proofs.Token.Lines

/-!
# What an excerpt shows

A report at a byte of a text quotes the line of that byte, with as many spaces before the caret as there are bytes of
the line before it (`render_shows_byte`). A newline is shown as the line that it opens, with the caret in front.

The line index and the excerpt count by rules of their own: the index measures the distance from the newline that opens
the line, the excerpt takes that newline off again. What both come to is said of the lines themselves (`IsLine`): the
newlines up to a byte are those before its line (`IsLine.opened`), and as many lines are before it
(`IsLine.getElem?_splitOn`).
-/

namespace QueryTemplate

/-! ## Bytes -/

/-- The byte of a text at an offset. -/
def byteAt? (source : String) (offset : Nat) : Option UInt8 := source.toByteArray.data[offset]?

section Bytes

variable {pre post cs : List Char} {c : Char} {o : Nat}

theorem length_flatMap_utf8EncodeChar (cs : List Char) : (cs.flatMap String.utf8EncodeChar).length = byteCount cs := by
  rw [List.length_flatMap, byteCount]
  exact congrArg List.sum (List.map_congr_left fun c _ => String.length_utf8EncodeChar c)

theorem byteAt?_eq (source : String) (o : Nat) :
    byteAt? source o = (source.toList.flatMap String.utf8EncodeChar)[o]? := by
  rw [byteAt?, ← String.utf8Encode_toList, List.utf8Encode, List.data_toByteArray, List.getElem?_toArray]

/-- The character that a byte belongs to. -/
theorem exists_character_at (ho : o < byteCount cs) :
    ∃ pre c post, cs = pre ++ c :: post ∧ byteCount pre ≤ o ∧ o < byteCount pre + c.utf8Size := by
  induction cs generalizing o with
  | nil => exact absurd ho (Nat.not_lt_zero _)
  | cons c cs ih =>
    rw [byteCount_cons] at ho
    by_cases hc : o < c.utf8Size
    · exact ⟨[], c, cs, rfl, Nat.zero_le _, by rwa [byteCount_nil, Nat.zero_add]⟩
    · obtain ⟨pre, d, post, rfl, hle, hlt⟩ := ih (o := o - c.utf8Size) (by omega)
      exact ⟨c :: pre, d, post, rfl, by rw [byteCount_cons]; omega, by rw [byteCount_cons]; omega⟩

/-- The bytes of a longer character are all above those of one byte. -/
theorem mem_utf8EncodeChar_newline : 10 ∈ String.utf8EncodeChar c ↔ c = '\n' := by
  have hbyte : ∀ n, 10 = UInt8.ofNat n ↔ n % 256 = 10 := by
    intro n
    rw [← UInt8.toNat_inj, UInt8.toNat_ofNat', eq_comm]
    rfl
  have hchar : c = '\n' ↔ c.val.toNat = 10 := by
    rw [← Char.toNat_inj]
    rfl
  rw [hchar]
  unfold String.utf8EncodeChar
  dsimp only
  split
  · rw [List.mem_singleton, hbyte]
    omega
  split
  · simp only [List.mem_cons, List.not_mem_nil, or_false, hbyte]
    omega
  split
  · simp only [List.mem_cons, List.not_mem_nil, or_false, hbyte]
    omega
  · simp only [List.mem_cons, List.not_mem_nil, or_false, hbyte]
    omega

/-- A byte is a newline if its character is one: no longer character has a byte like that. -/
theorem byteAt?_newline {source : String} (hs : source.toList = pre ++ c :: post) (hle : byteCount pre ≤ o)
    (hlt : o < byteCount pre + c.utf8Size) : byteAt? source o = some 10 ↔ c = '\n' := by
  have hbyte : byteAt? source o = (String.utf8EncodeChar c)[o - byteCount pre]? := by
    have hlength := length_flatMap_utf8EncodeChar pre
    rw [byteAt?_eq, hs, List.flatMap_append, List.flatMap_cons, List.getElem?_append_right (by omega), hlength,
      List.getElem?_append_left (by rw [String.length_utf8EncodeChar]; omega)]
  rw [hbyte]
  constructor
  · exact fun h => mem_utf8EncodeChar_newline.1 (List.mem_of_getElem? h)
  · rintro rfl
    have hsize : '\n'.utf8Size = 1 := rfl
    have ho : o - byteCount pre = 0 := by omega
    rw [ho]
    rfl

end Bytes

/-! ## Lines -/

/-- A line of a text: there is no newline in it, but one before it and one behind it, unless the text begins or ends
there. -/
structure IsLine (cs before line after : List Char) : Prop where
  eq : cs = before ++ line ++ after
  newline_notMem : '\n' ∉ line
  opened : before = [] ∨ ∃ b, before = b ++ ['\n']
  closed : after = [] ∨ ∃ a, after = '\n' :: a

/-- Characters up to and with a newline, if there is one among them, and what stands behind it. -/
theorem exists_opened (cs : List Char) :
    ∃ before rest, cs = before ++ rest ∧ '\n' ∉ rest ∧ (before = [] ∨ ∃ b, before = b ++ ['\n']) := by
  induction cs using List.reverseRecOn with
  | nil => exact ⟨[], [], rfl, List.not_mem_nil, .inl rfl⟩
  | append_singleton cs c ih =>
    by_cases hc : c = '\n'
    · exact ⟨cs ++ [c], [], (List.append_nil _).symm, List.not_mem_nil, .inr ⟨cs, by rw [hc]⟩⟩
    · obtain ⟨before, rest, rfl, hrest, hbefore⟩ := ih
      refine ⟨before, rest ++ [c], List.append_assoc .., ?_, hbefore⟩
      rw [List.mem_append, List.mem_singleton, not_or]
      exact ⟨hrest, Ne.symm hc⟩

/-- The line in which some first characters of a text end. -/
theorem exists_isLine (head rest : List Char) :
    ∃ before lead line after, IsLine (head ++ rest) before line after ∧ head = before ++ lead ∧ lead <+: line := by
  obtain ⟨before, lead, rfl, hlead, hbefore⟩ := exists_opened head
  refine ⟨before, lead, lead ++ rest.takeWhile (· ≠ '\n'), rest.dropWhile (· ≠ '\n'), ⟨?_, ?_, hbefore, ?_⟩, rfl,
    List.prefix_append ..⟩
  · rw [List.append_assoc, List.append_assoc, List.append_assoc, List.takeWhile_append_dropWhile]
  · rw [List.mem_append, not_or]
    exact ⟨hlead, fun hmem => by simpa using List.mem_takeWhile_imp hmem⟩
  · have hhead := List.head?_dropWhile_not (· ≠ '\n') rest
    cases h : rest.dropWhile (· ≠ '\n') with
    | nil => exact .inl rfl
    | cons c a =>
      rw [h] at hhead
      obtain rfl : c = '\n' := by simpa using hhead
      exact .inr ⟨a, rfl⟩

namespace IsLine

variable {cs before line after : List Char} {o : Nat}

/-- As many lines are before it as there are newlines. -/
theorem getElem?_splitOn (h : IsLine cs before line after) : (cs.splitOn '\n')[before.count '\n']? = some line := by
  obtain ⟨rfl, hline, hbefore, hafter⟩ := h
  induction before with
  | nil =>
    rw [List.nil_append, List.count_nil]
    obtain rfl | ⟨a, rfl⟩ := hafter
    · rw [List.append_nil, List.splitOn_eq_singleton hline]
      rfl
    · rw [List.splitOn_append_cons_self_of_not_mem hline]
      rfl
  | cons c before ih =>
    have hbefore' : before = [] ∧ c = '\n' ∨ ∃ b, before = b ++ ['\n'] := by
      obtain hnil | ⟨b, hb⟩ := hbefore
      · cases hnil
      · cases b with
        | nil => exact .inl ⟨(List.cons.inj hb).2, (List.cons.inj hb).1⟩
        | cons d b => exact .inr ⟨b, (List.cons.inj hb).2⟩
    rw [List.cons_append, List.cons_append, List.splitOn_cons_eq_if_modifyHead, List.count_cons]
    by_cases hc : c = '\n'
    · rw [if_pos (beq_iff_eq.2 hc), if_pos (beq_iff_eq.2 hc), List.getElem?_cons_succ]
      exact ih (hbefore'.imp And.left id)
    · obtain ⟨-, hnewline⟩ | ⟨b, rfl⟩ := hbefore'
      · exact absurd hnewline hc
      · rw [if_neg (mt beq_iff_eq.1 hc), if_neg (mt beq_iff_eq.1 hc), Nat.add_zero]
        have hcount : (b ++ ['\n']).count '\n' = b.count '\n' + 1 := by simp
        have := ih (.inr ⟨b, rfl⟩)
        rw [hcount] at this ⊢
        rw [List.getElem?_modifyHead_succ, this]

/-- The newlines up to a byte of the line, or up to the newline that opens it, are those before the line. -/
theorem opened_eq (h : IsLine cs before line after) (hbefore : ∀ n ∈ newlineOffsets 0 before, n ≤ o)
    (ho : o < byteCount before + byteCount line) : (LineIndex.ofChars cs).opened o = newlineOffsets 0 before := by
  have hline : ∀ start, newlineOffsets start line = [] := fun start => by
    rw [← List.length_eq_zero_iff, length_newlineOffsets, List.count_eq_zero]
    exact h.newline_notMem
  rw [LineIndex.opened, LineIndex.ofChars, h.eq, newlineOffsets_append, newlineOffsets_append, hline, List.append_nil,
    List.filter_append, List.filter_eq_self.2, List.filter_eq_nil_iff.2, List.append_nil]
  · intro n hn
    have := (mem_newlineOffsets _ _ hn).1
    rw [byteCount_append] at this
    simp only [decide_eq_true_eq]
    omega
  · intro n hn
    simpa using hbefore n hn

/-- The last newline before the line is the byte in front of it. -/
theorem getLastD_newlineOffsets (h : IsLine cs before line after) :
    (newlineOffsets 0 before).getLastD 0 = byteCount before - 1 := by
  obtain rfl | ⟨b, rfl⟩ := h.opened
  · rfl
  · have hnewline : newlineOffsets (0 + byteCount b) ['\n'] = [byteCount b] := by
      rw [Nat.zero_add]
      rfl
    rw [newlineOffsets_append, hnewline, List.getLastD_concat, byteCount_append]
    rfl

theorem position (h : IsLine cs before line after) (hbefore : ∀ n ∈ newlineOffsets 0 before, n ≤ o)
    (ho : o < byteCount before + byteCount line) : (LineIndex.ofChars cs).position o =
      ⟨min (before.count '\n' + 1) LineIndex.limit, min (o - (byteCount before - 1)) LineIndex.limit⟩ := by
  rw [LineIndex.position_eq, h.opened_eq hbefore ho, length_newlineOffsets, h.getLastD_newlineOffsets]

/-- A line that ends in a newline of a text of newlines only. -/
theorem replicate (n : Nat) : IsLine (List.replicate (n + 1) '\n') (List.replicate n '\n') [] ['\n'] := by
  refine ⟨by rw [List.append_nil, ← List.replicate_succ'], List.not_mem_nil, ?_, .inr ⟨[], rfl⟩⟩
  cases n with
  | zero => exact .inl rfl
  | succ n => exact .inr ⟨List.replicate n '\n', List.replicate_succ'⟩

end IsLine

/-- The line index holds the number of a line to its limit. A text that comes to it without being too long has but
newlines, so the line of that number is as empty as the one in question. -/
theorem IsLine.getElem?_limit {cs before line after : List Char} (h : IsLine cs before line after)
    (hsize : byteCount cs ≤ LineIndex.limit) :
    (cs.splitOn '\n')[min (before.count '\n' + 1) LineIndex.limit - 1]? = some line := by
  have hline := h.getElem?_splitOn
  by_cases hlimit : before.count '\n' + 1 ≤ LineIndex.limit
  · rwa [Nat.min_eq_left hlimit, Nat.add_sub_cancel]
  · have hcount := count_newline_le before
    have hbytes : byteCount cs = byteCount before + byteCount line + byteCount after := by
      rw [h.eq, byteCount_append, byteCount_append]
    have hbefore : byteCount before ≤ before.count '\n' := by omega
    have hall : before.count '\n' = LineIndex.limit := by omega
    have empty : ∀ xs, byteCount xs = 0 → xs = [] := by
      intro xs hxs
      cases xs with
      | nil => rfl
      | cons c xs =>
        have hc := c.utf8Size_pos
        rw [byteCount_cons] at hxs
        omega
    obtain ⟨n, hn⟩ : ∃ n, LineIndex.limit = n + 1 := ⟨4294967294, rfl⟩
    have hcs : cs = List.replicate (n + 1) '\n' := by
      rw [h.eq, empty line (by omega), empty after (by omega), List.append_nil, List.append_nil, ← hn, ← hall]
      exact eq_replicate_of_count hbefore
    have hlast := (IsLine.replicate n).getElem?_splitOn
    rw [List.count_replicate_self] at hlast
    rw [empty line (by omega), Nat.min_eq_right (by omega), hn, Nat.add_sub_cancel, hcs, hlast]

/-- The line of a byte, or the one that it opens. -/
theorem exists_isLine_at {source : String} {o : Nat} (ho : o < source.utf8ByteSize) : ∃ before line after,
    IsLine source.toList before line after ∧ (∀ n ∈ newlineOffsets 0 before, n ≤ o) ∧
      (byteAt? source o ≠ some 10 → byteCount before ≤ o ∧ o < byteCount before + byteCount line) ∧
      (byteAt? source o = some 10 → byteCount before = o + 1) := by
  rw [← byteCount_toList] at ho
  obtain ⟨pre, c, post, hs, hle, hlt⟩ := exists_character_at ho
  have hbyte := byteAt?_newline hs hle hlt
  have hsplit : source.toList = (pre ++ [c]) ++ post := by rw [hs, List.append_assoc, List.singleton_append]
  obtain ⟨before, lead, line, after, hline, hhead, hlead⟩ := exists_isLine (pre ++ [c]) post
  rw [← hsplit] at hline
  have hnewlines : ∀ n ∈ newlineOffsets 0 before, n ≤ o := by
    intro n hn
    have hmem : n ∈ newlineOffsets 0 (pre ++ [c]) := by
      rw [hhead, newlineOffsets_append]
      exact List.mem_append_left _ hn
    rw [newlineOffsets_append, List.mem_append] at hmem
    obtain hmem | hmem := hmem
    · have := (mem_newlineOffsets _ _ hmem).2
      omega
    · rw [newlineOffsets_cons, newlineOffsets, List.append_nil] at hmem
      split at hmem
      · have := List.mem_singleton.1 hmem
        omega
      · cases hmem
  have hends : before = pre ++ [c] ∨ ∃ l, lead = l ++ [c] ∧ pre = before ++ l := by
    obtain rfl | ⟨l, d, rfl⟩ := lead.eq_nil_or_concat
    · exact .inl (by rw [hhead, List.append_nil])
    · rw [List.concat_eq_append, ← List.append_assoc] at hhead
      obtain ⟨rfl, hd⟩ := List.append_inj' hhead rfl
      exact .inr ⟨l, by rw [List.concat_eq_append, hd], rfl⟩
  refine ⟨before, line, after, hline, hnewlines, fun hne => ?_, fun heq => ?_⟩
  · -- What is no newline opens no line, so it is one of the characters of this one.
    have hc : c ≠ '\n' := mt hbyte.2 hne
    obtain rfl | ⟨l, rfl, rfl⟩ := hends
    · obtain hnil | ⟨b, hb⟩ := hline.opened
      · exact absurd hnil (List.append_ne_nil_of_right_ne_nil _ (List.cons_ne_nil _ _))
      · exact absurd (List.cons.inj (List.append_inj' hb rfl).2).1 hc
    · obtain ⟨rest, rfl⟩ := hlead
      simp only [byteCount_append, byteCount_cons, byteCount_nil] at hle hlt ⊢
      omega
  · obtain rfl := hbyte.1 heq
    have hsize : '\n'.utf8Size = 1 := rfl
    obtain rfl | ⟨l, rfl, -⟩ := hends
    · rw [byteCount_append, byteCount_cons, byteCount_nil]
      omega
    · exact absurd (hlead.subset (List.mem_append_right _ (List.mem_singleton_self _))) hline.newline_notMem

/-! ## Reports -/

/-- So many spaces. -/
def spaces (n : Nat) : String := String.ofList (List.replicate n ' ')

namespace Diagnostic

/-- What the report shows of a text at a byte: a line of the text with its number in the gutter, and the caret. -/
structure Shows (d : Diagnostic) (source : String) (o : Nat) (before line after quoted : List Char) : Prop where
  isLine : IsLine source.toList before line after
  within : byteAt? source o ≠ some 10 → byteCount before ≤ o ∧ o < byteCount before + byteCount line
  opens : byteAt? source o = some 10 → byteCount before = o + 1
  number : d.position.line = min (before.count '\n' + 1) LineIndex.limit
  withoutReturn : line = quoted ++ ['\r'] ∨ line = quoted ∧ line.getLast? ≠ some '\r'
  render : d.render source = toString d ++
    "\n" ++ spaces (toString d.position.line).length ++ " |" ++
    "\n" ++ toString d.position.line ++ " | " ++ String.ofList quoted ++
    "\n" ++ spaces (toString d.position.line).length ++ " | " ++ spaces (o - byteCount before) ++ "^"

theorem withoutReturn_quotes (line : List Char) :
    line = withoutReturn line ++ ['\r'] ∨ line = withoutReturn line ∧ line.getLast? ≠ some '\r' := by
  unfold withoutReturn
  split
  next h => exact .inl (List.dropLast_append_getLast? _ h).symm
  next h => exact .inr ⟨rfl, h⟩

/-- The spaces before the caret are the bytes of the line before the place. -/
theorem indent_eq {cs before line after quoted : List Char} {p : Position} {o : Nat} (h : IsLine cs before line after)
    (hline : p.line = min (before.count '\n' + 1) LineIndex.limit) (hcolumn : p.column = o - (byteCount before - 1))
    (ho : o ≤ byteCount before + byteCount quoted) : indent p quoted = o - byteCount before := by
  rw [indent, utf8ByteSize_ofList, hcolumn, hline]
  have hlimit : LineIndex.limit = 4294967295 := rfl
  obtain rfl | ⟨b, rfl⟩ := h.opened
  · rw [byteCount_nil] at ho ⊢
    rw [List.count_nil, if_pos (by omega)]
    omega
  · rw [byteCount_append, byteCount_cons, byteCount_nil] at ho ⊢
    rw [List.count_append, List.count_singleton_self, if_neg (by omega)]
    have hsize : '\n'.utf8Size = 1 := rfl
    omega

theorem render_of_line {d : Diagnostic} {source : String} {line : List Char} (hd : 0 < d.position.line)
    (hline : (lines source)[d.position.line - 1]? = some line) :
    d.render source = toString d ++ excerpt d.position (withoutReturn line) := by
  have hsome : d.position.isSome = true := bne_iff_ne.2 fun hnone => by
    rw [hnone] at hd
    cases hd
  rw [render, if_pos hsome, hline]

/-- A report at a byte of a text shows the line that the byte is of, with a space before the caret for each byte of the
line before it. At a newline it is the line that the newline opens, and the caret stands in front. -/
theorem render_shows_byte (source : String) (d : Diagnostic) (o : Nat) (hsize : source.utf8ByteSize < 2 ^ 32)
    (ho : o < source.utf8ByteSize) (hd : d.position = (LineIndex.ofString source).position o) :
    ∃ before line after quoted, d.Shows source o before line after quoted := by
  obtain ⟨before, line, after, hline, hnewlines, hwithin, hopens⟩ := exists_isLine_at ho
  have hlimit : LineIndex.limit = 4294967295 := rfl
  have hlt : o < byteCount before + byteCount line := by
    by_cases hbyte : byteAt? source o = some 10
    · have := hopens hbyte
      omega
    · exact (hwithin hbyte).2
  have hposition := hline.position hnewlines hlt
  rw [← LineIndex.ofString_eq, ← hd] at hposition
  have hnumber : d.position.line = min (before.count '\n' + 1) LineIndex.limit := by rw [hposition]
  have hcolumn : d.position.column = o - (byteCount before - 1) := by
    rw [hposition]
    exact Nat.min_eq_left (by omega)
  have hquoted := withoutReturn_quotes line
  have hindent : indent d.position (withoutReturn line) = o - byteCount before := by
    refine indent_eq hline hnumber hcolumn ?_
    generalize withoutReturn line = quoted at hquoted
    obtain rfl | ⟨rfl, -⟩ := hquoted
    · have hsize : '\r'.utf8Size = 1 := rfl
      rw [byteCount_append, byteCount_cons, byteCount_nil] at hlt
      omega
    · omega
  have hfound : (lines source)[d.position.line - 1]? = some line := by
    rw [hnumber]
    exact hline.getElem?_limit (by rw [byteCount_toList]; omega)
  refine ⟨before, line, after, _, hline, hwithin, hopens, hnumber, hquoted, ?_⟩
  rw [render_of_line (by omega) hfound, excerpt, hindent]
  simp only [spaces, String.ofList_append, String.append_assoc]
  rfl

/-- The last byte of a text of two lines, of which the first ends in a carriage return and a newline. -/
theorem render_shows_last_byte : "a\r\nbc".utf8ByteSize < 2 ^ 32 ∧ 4 < "a\r\nbc".utf8ByteSize ∧
    ∃ before line after quoted,
      (Diagnostic.error .undefinedVariable "c" ⟨2, 2⟩).Shows "a\r\nbc" 4 before line after quoted :=
  ⟨by decide, by decide, render_shows_byte _ _ 4 (by decide) (by decide) (by decide)⟩

end Diagnostic

end QueryTemplate
