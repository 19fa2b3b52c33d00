import Cairn.Number.Digits
import Cairn.Report.SourceLine
import Cairn.Report.Style
import Cairn.Text.Blank
import Cairn.Text.Width

/-!
# Cairn — snippets

A message about a place in a program is shown with the lines it is about. If
they are one line, an arrow leads from the text in question to the message. If
they are several, the first and the last one are shown, joined by a bar in the
margin that leads to the message.

White space is shown as blanks; a tab reaches up to the next column that is a
multiple of four, counted in characters.
-/

namespace Cairn

/-- A message about a span of a source. -/
structure Snippet where
  span : Span
  code : String
  title : String
  message : String
  help : Option String

namespace Snippet

-- ---------------------------------------------------------------------------
-- Cells
-- ---------------------------------------------------------------------------

/-- How a character at a column is shown, and how wide it is. -/
def glyph (column : Nat) (c : Char) : Char × Nat :=
  if c = '\t' then (' ', (column / 4 + 1) * 4 - column)
  else if isWhite c then (' ', 1)
  else (c, charWidth c)

/-- The characters of a line that are shown. -/
def shown (line : SourceLine) : List Char :=
  trimEndWhile isWhite line.chars

/-- The width of a column under a line. -/
def columnWidth (chars : List Char) (column : Nat) : Nat :=
  match chars[column]? with
  | some c => (glyph column c).2
  | none => 1

/-- A cell of the given width: its first character, and what fills the rest. -/
def cell (width : Nat) (shade : Option Shade) (first filler : String) : Row :=
  if width = 0 then [] else ⟨first, shade⟩ :: List.replicate (width - 1) ⟨filler, shade⟩

-- ---------------------------------------------------------------------------
-- Frame
-- ---------------------------------------------------------------------------

/-- As many copies of a character. -/
def repeated (n : Nat) (c : Char) : String :=
  String.ofList (List.replicate n c)

/-- The frame beside a line with a number, where numbers are `width` wide. -/
def numbered (width number : Nat) : Row :=
  let digits := digitsOf number
  [.bare " ",
    .shaded .frame (repeated (width - digits.length) ' ' ++ String.ofList digits ++ " │"),
    .bare " "]

/-- The frame beside a row without a number. -/
def unnumbered (width : Nat) (bar : String) : Row :=
  [.bare " ", .shaded .faintFrame (repeated (width + 1) ' ' ++ bar), .bare " "]

/-- The rows in front of the source. -/
def header (s : Snippet) (file : String) (width : Nat) (x : Extent) : List Row :=
  let pad := repeated (width + 2) ' '
  let place := s!" {file}:{x.firstLine + 1}:{x.firstColumn + 1} "
  [[.shaded .error s!"[{s.code}] Error:", .bare (" " ++ s.title)],
    [.bare pad, .shaded .frame "╭", .shaded .frame "─", .shaded .frame "[", .bare place,
      .shaded .frame "]"],
    [.bare pad, .shaded .frame "│"]]

/-- The row behind all others. -/
def footer (width : Nat) : Row :=
  [.shaded .frame (repeated (width + 2) '─' ++ "╯")]

-- ---------------------------------------------------------------------------
-- Source
-- ---------------------------------------------------------------------------

/-- The characters of a line from a column on, marked where they lie in the
extent. -/
def sourceCells (x : Extent) (index column : Nat) : List Char → Row
  | [] => []
  | c :: cs =>
    let shade := if x.covers index column then Shade.mark else Shade.source
    let drawn := glyph column c
    let pieces :=
      if isWhite drawn.1 then List.replicate drawn.2 (Piece.shaded shade " ")
      else [.shaded shade (String.singleton drawn.1)]
    pieces ++ sourceCells x index (column + 1) cs

/-- A line of the source. -/
def sourceRow (lines : List SourceLine) (x : Extent) (index : Nat) : Row :=
  sourceCells x index 0 (shown (SourceLine.get lines index))

/-- Characters in the shade of the mark, each a piece of its own. -/
def marks (text : String) : Row :=
  text.toList.map fun c => .shaded .mark (String.singleton c)

-- ---------------------------------------------------------------------------
-- One line
-- ---------------------------------------------------------------------------

/-- The row that underlines the extent; an arrow starts in its middle. -/
def underline (line : List Char) (x : Extent) : Row :=
  let middle := (x.firstColumn + x.lastColumn) / 2
  (List.range (x.lastColumn + 2)).flatMap fun column =>
    let width := columnWidth line column
    if column = middle then
      if x.firstColumn = x.lastColumn then cell width (some .mark) "│" " "
      else cell width (some .mark) "┬" "─"
    else if x.firstColumn ≤ column ∧ column < x.lastColumn then cell width (some .mark) "─" "─"
    else cell width none " " " "

/-- The row in which the arrow turns to the message. -/
def arrow (line : List Char) (x : Extent) : Row :=
  let middle := (x.firstColumn + x.lastColumn) / 2
  (List.range (x.lastColumn + 2)).flatMap fun column =>
    let width := columnWidth line column
    if column < middle then cell width none " " " "
    else if column = middle then cell width (some .mark) "╰" "─"
    else cell width (some .mark) "─" "─"

/-- The rows of an extent within one line. -/
def oneLine (s : Snippet) (lines : List SourceLine) (width : Nat) (x : Extent) : List Row :=
  let line := shown (SourceLine.get lines x.firstLine)
  [numbered width (x.firstLine + 1) ++ sourceRow lines x x.firstLine,
    unnumbered width "│" ++ underline line x,
    unnumbered width "│" ++ arrow line x ++ [.bare (" " ++ s.message)]]

-- ---------------------------------------------------------------------------
-- Several lines
-- ---------------------------------------------------------------------------

/-- The columns of the rows below the last line, which reach two past its end. -/
def rowWidth (line : SourceLine) : Nat :=
  (List.range (line.chars.length + 2)).foldl (fun n column => n + columnWidth (shown line) column) 0

/-- The rows of an extent over several lines. Lines between the first and the
last one are left out. -/
def severalLines (s : Snippet) (lines : List SourceLine) (width : Nat) (x : Extent) : List Row :=
  let columns := rowWidth (SourceLine.get lines x.lastLine)
  let between : List Row :=
    if x.firstLine + 1 < x.lastLine then
      [unnumbered width "┆" ++ [.shaded .mark "┆", .bare "   "]]
    else []
  [numbered width (x.firstLine + 1) ++ marks "╭─▶ " ++ sourceRow lines x x.firstLine] ++ between ++
    [numbered width (x.lastLine + 1) ++ marks "├─▶ " ++ sourceRow lines x x.lastLine,
      unnumbered width "│" ++ [.shaded .mark "│", .bare ("   " ++ repeated columns ' ')],
      unnumbered width "│" ++ marks ("╰───" ++ repeated columns '─') ++ [.bare (" " ++ s.message)]]

-- ---------------------------------------------------------------------------
-- Help
-- ---------------------------------------------------------------------------

/-- The margin of the rows with help. It is that of the first line of the
source, so that a bar which starts right behind that line is seen in it. -/
def helpMargin (x : Extent) : Row :=
  if x.firstLine = x.lastLine then []
  else if x.firstLine = 1 ∧ x.firstColumn = 0 then [.shaded .mark "│", .bare "   "]
  else [.bare "    "]

/-- The rows with help. -/
def helpRows (s : Snippet) (width : Nat) (x : Extent) : List Row :=
  match s.help with
  | none => []
  | some help =>
    let margin := unnumbered width "│" ++ helpMargin x
    [margin, margin ++ [.shaded .note "Help", .bare (": " ++ help)]]

-- ---------------------------------------------------------------------------
-- The whole snippet
-- ---------------------------------------------------------------------------

/-- The span, cut off at the end of a source of the given size. -/
def clamp (s : Span) (size : Nat) : Span :=
  let start := min s.start size
  ⟨start, max start (min s.stop size)⟩

/-- The rows of a snippet of a file with the given text. -/
def rows (s : Snippet) (file : String) (source : String) : List Row :=
  let lines := SourceLine.split source.toList
  let x := Extent.ofSpan lines (clamp s.span source.utf8ByteSize)
  let width := (digitsOf (x.lastLine + 1)).length
  let body :=
    if x.firstLine = x.lastLine then s.oneLine lines width x else s.severalLines lines width x
  s.header file width x ++ body ++ s.helpRows width x ++ [footer width]

end Snippet

end Cairn
