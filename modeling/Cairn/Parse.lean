import Cairn.Grammar.Statement
import Cairn.Parse.Nesting
import Cairn.Parse.Resolve

/-!
# Cairn — parsing

A text is parsed in three steps: the nesting of its brackets and unary
operators is checked, the grammar is run over it, and the numbers of the tree
are resolved. The first step that fails decides the error.

## Main definitions

* `recognize`   — the tree that the grammar gives a text.
* `parseWithin` — parsing under a limit on nesting.
* `parse`       — parsing under the usual limit.
-/

namespace Cairn

/-- The tree of a text, its numbers still digits, if it follows the grammar. -/
def recognize (source : List Char) : Option (List (Stmt Lexeme)) :=
  ((Grammar.program source.length).run (.ofChars source)).map Prod.fst

/-- The word, or else the single character, at the front of a text. -/
def frontWord (cs : List Char) : List Char :=
  match cs.takeWhile Word.isWordChar with
  | [] => cs.take 1
  | word => word

/-- The error of a text that does not follow the grammar: what stands at the
farthest point that was reached, and what was expected there. -/
def syntaxError (source : List Char) : ParseError :=
  let start := Cursor.ofChars source
  let attempts := (Grammar.program source.length).trace start (.start start)
  let reached := attempts.reached
  let word := frontWord reached.rest
  let text := String.ofList word
  let found := if word.isEmpty then "end of input" else s!"'{text}'"
  ⟨.unexpected (Rule.expected attempts.rules) found, reached.upTo (reached.advance word.length)⟩

/-- Parses a text whose nesting may go `limit` levels deep. -/
def parseWithin (limit : Nat) (source : String) : Except ParseError Program :=
  match Nesting.check limit source.toList with
  | some e => .error e
  | none =>
    match recognize source.toList with
    | none => .error (syntaxError source.toList)
    | some statements => Stmt.resolveAll limit 0 statements

/-- How many levels deep a program may nest. -/
def usualLimit : Nat := 100

/-- Parses a text. -/
def parse (source : String) : Except ParseError Program :=
  parseWithin usualLimit source

end Cairn
