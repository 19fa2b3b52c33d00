import Cairn.Bytecode.Value
import Cairn.Text.Blank
import Cairn.Text.Utf8

/-!
# Cairn — values from input

Input comes in lines of bytes. Numbers and truth values may have white space
around them, and truth values are read in any case; a text is the whole line
without its end.
-/

namespace Cairn

/-- The first line, with its line feed, and what follows it. -/
def takeLine : List UInt8 → List UInt8 × List UInt8
  | [] => ([], [])
  | b :: rest =>
    if b = 10 then ([b], rest)
    else
      let line := takeLine rest
      (b :: line.1, line.2)

/-- A line without the characters that end it. -/
def chomp (cs : List Char) : List Char :=
  trimEndWhile (fun c => c == '\n' || c == '\r') cs

/-- The value with the given tag that a line spells. -/
def Value.ofLine? (tag : Tag) (line : List Char) : Option Value :=
  match tag with
  | .int => (readSigned? (trim line)).map .int
  | .float => (Double.read? (trim line)).map .float
  | .bool =>
    let word := (trim line).map Char.toLower
    if word = "true".toList then some (.bool true)
    else if word = "false".toList then some (.bool false)
    else none
  | .string => some (.str (String.ofList line))

end Cairn
