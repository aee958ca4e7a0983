import QueryTemplate.Position

/-!
# Lines of a text

The line index of a text turns byte offsets into positions. The first line starts in column 0. A newline stands
in column 0 of the line that it opens, so what follows it on that line starts in column 1: on every later line
the column is the distance from the newline that opens it.
-/

namespace QueryTemplate

/-- Byte offsets of the newlines of a text whose first byte has offset `start`. -/
def newlineOffsets (start : Nat) : List Char → List Nat
  | [] => []
  | c :: cs => if c = '\n' then start :: newlineOffsets (start + 1) cs else newlineOffsets (start + c.utf8Size) cs

/-- The newlines of a text and its size in bytes. -/
structure LineIndex where
  /-- Byte offsets of the newlines, ascending. -/
  newlines : List Nat
  /-- Bytes in the text. -/
  size : Nat

namespace LineIndex

/-- Lines and columns are held to this number. -/
def limit : Nat := 4294967295

/-- The line index of a text. -/
def ofString (text : String) : LineIndex :=
  ⟨newlineOffsets 0 text.toList, text.utf8ByteSize⟩

/-- The position of the byte at `offset`: the line is the number of newlines up to and with that byte, plus one,
and the column is the distance to the last of them. -/
def position (index : LineIndex) (offset : Nat) : Position :=
  let opened := index.newlines.filter (· ≤ offset)
  ⟨min (opened.length + 1) limit, min (offset - opened.getLastD 0) limit⟩

/-- The position of the last byte; that of offset 0 in an empty text. -/
def lastPosition (index : LineIndex) : Position :=
  index.position (index.size - 1)

end LineIndex

end QueryTemplate
