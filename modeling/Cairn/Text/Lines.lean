/-!
# Cairn — lines of a text

A line ends at a line feed, and a carriage return right in front of it belongs
to the line's end. What follows the last line feed is a line too, unless it is
empty.
-/

namespace Cairn

/-- The lines of a text, where `read` holds what was read of the current line,
last character first. -/
def linesFrom (read : List Char) : List Char → List (List Char)
  | [] => if read.isEmpty then [] else [read.reverse]
  | '\n' :: cs =>
    let line := if read.head? = some '\r' then read.tail else read
    line.reverse :: linesFrom [] cs
  | c :: cs => linesFrom (c :: read) cs

/-- The lines of a text, without their ends. -/
def lines (cs : List Char) : List (List Char) :=
  linesFrom [] cs

end Cairn
