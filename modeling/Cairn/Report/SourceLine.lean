import Cairn.Source.Location

/-!
# Cairn — lines to show

Reports split a source into lines at every character that Unicode lets end a
line. A line keeps the characters that end it. The last line of a text is never
empty, unless the text is.
-/

namespace Cairn

/-- A line of a source, with what ends it, and the bytes in front of it. -/
structure SourceLine where
  start : Nat
  chars : List Char
deriving DecidableEq, Repr

namespace SourceLine

/-- The characters that end a line. -/
def isEnd (c : Char) : Bool :=
  (0x0a ≤ c.toNat && c.toNat ≤ 0x0d) || c.toNat == 0x85 || c.toNat == 0x2028 || c.toNat == 0x2029

/-- How many bytes a text has. -/
def byteSize (cs : List Char) : Nat :=
  cs.foldl (fun n c => n + c.utf8Size) 0

/-- The lines of a text that starts at byte `start`, where `read` holds what was
read of the current line, last character first. A carriage return and a line
feed end a line together. -/
def splitFrom (start : Nat) (read : List Char) : List Char → List SourceLine
  | [] => if read.isEmpty then [] else [⟨start, read.reverse⟩]
  | '\r' :: '\n' :: cs =>
    let line := ('\n' :: '\r' :: read).reverse
    ⟨start, line⟩ :: splitFrom (start + byteSize line) [] cs
  | c :: cs =>
    if isEnd c then
      let line := (c :: read).reverse
      ⟨start, line⟩ :: splitFrom (start + byteSize line) [] cs
    else splitFrom start (c :: read) cs

/-- The lines of a text. -/
def split (source : List Char) : List SourceLine :=
  match splitFrom 0 [] source with
  | [] => [⟨0, []⟩]
  | lines => lines

/-- How many characters start within the first `n` bytes. -/
def charsWithin (n : Nat) : List Char → Nat
  | [] => 0
  | c :: cs => if n = 0 then 0 else charsWithin (n - c.utf8Size) cs + 1

/-- The index of the line that a byte is in; the end of the text is in the last
line. -/
def indexAt (lines : List SourceLine) (offset : Nat) : Nat :=
  (lines.takeWhile fun line => line.start ≤ offset).length - 1

/-- The line with the given index. -/
def get (lines : List SourceLine) (index : Nat) : SourceLine :=
  lines.getD index ⟨0, []⟩

/-- The column, counted from zero, at which a byte of the line stands. -/
def columnAt (line : SourceLine) (offset : Nat) : Nat :=
  charsWithin (offset - line.start) line.chars

end SourceLine

/-- Where a span lies: lines by index, columns in characters, the last column
exclusive. -/
structure Extent where
  firstLine : Nat
  firstColumn : Nat
  lastLine : Nat
  lastColumn : Nat
deriving DecidableEq, Repr

namespace Extent

/-- The extent of a span. It ends in the line of its last byte. -/
def ofSpan (lines : List SourceLine) (s : Span) : Extent :=
  let first := SourceLine.indexAt lines s.start
  let column := (SourceLine.get lines first).columnAt s.start
  if s.stop ≤ s.start then ⟨first, column, first, column⟩
  else
    let last := SourceLine.indexAt lines (s.stop - 1)
    ⟨first, column, last, (SourceLine.get lines last).columnAt s.stop⟩

/-- Whether a column of a line lies in the extent. -/
def covers (x : Extent) (line column : Nat) : Bool :=
  (x.firstLine < line || (x.firstLine == line && x.firstColumn ≤ column)) &&
    (line < x.lastLine || (line == x.lastLine && column < x.lastColumn))

end Extent

end Cairn
