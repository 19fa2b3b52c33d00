import Cairn.Grammar.Rule

/-!
# Cairn — the words of the language

Each function here looks at the front of a text and says how many characters
the word that stands there takes up, or that no such word stands there. A word
extends as far as it can: `ifx` is a name and not the reserved word `if`.

Between words there may be a *gap*: blanks, comments that run to the end of
the line, and comments in `/*` and `*/`.
-/

namespace Cairn.Word

-- ---------------------------------------------------------------------------
-- Gaps
-- ---------------------------------------------------------------------------

/-- Blank, tab, carriage return and line feed. -/
def isBlank (c : Char) : Bool :=
  c == ' ' || c == '\t' || c == '\r' || c == '\n'

/-- The characters that end a line, and with it a line comment. -/
def isNewline (c : Char) : Bool :=
  c == '\n' || c == '\r'

/-- What the text in front of us continues. -/
inductive GapState where
  | blanks
  | lineComment
  | blockComment

/-- The length of the rest of a gap. An unclosed block comment is no gap. -/
def gapFrom : GapState → List Char → Option Nat
  | .blanks, '/' :: '/' :: cs => (gapFrom .lineComment cs).map (· + 2)
  | .blanks, '/' :: '*' :: cs =>
    match gapFrom .blockComment cs with
    | some n => some (n + 2)
    | none => some 0
  | .blanks, c :: cs => if isBlank c then (gapFrom .blanks cs).map (· + 1) else some 0
  | .blanks, [] => some 0
  | .lineComment, c :: cs =>
    if isNewline c then (gapFrom .blanks cs).map (· + 1) else (gapFrom .lineComment cs).map (· + 1)
  | .lineComment, [] => some 0
  | .blockComment, '*' :: '/' :: cs => (gapFrom .blanks cs).map (· + 2)
  | .blockComment, _ :: cs => (gapFrom .blockComment cs).map (· + 1)
  | .blockComment, [] => none

/-- The length of the gap at the front of a text. -/
def gap (cs : List Char) : Nat :=
  (gapFrom .blanks cs).getD 0

-- ---------------------------------------------------------------------------
-- Words
-- ---------------------------------------------------------------------------

/-- The characters that names and reserved words are made of. -/
def isWordChar (c : Char) : Bool :=
  c.isAlphanum || c == '_'

/-- A fixed sequence of characters. -/
def symbol (text : String) (cs : List Char) : Option Nat :=
  if text.toList.isPrefixOf cs then some text.toList.length else none

/-- The equals sign of an assignment, which is not the start of `==`. -/
def assignOp : List Char → Option Nat
  | '=' :: cs => if cs.head? = some '=' then none else some 1
  | _ => none

/-- The sign of a unary operator. A `!` is not the start of `!=`. -/
def unaryOp : UnaryOp → List Char → Option Nat
  | .neg, '-' :: _ => some 1
  | .not, '!' :: cs => if cs.head? = some '=' then none else some 1
  | _, _ => none

/-- A reserved word. -/
def keyword (k : Keyword) (cs : List Char) : Option Nat :=
  let word := cs.takeWhile isWordChar
  if word = k.text.toList then some word.length else none

/-- A name: a word that does not start with a digit and is not reserved. -/
def ident (cs : List Char) : Option Nat :=
  let word := cs.takeWhile isWordChar
  match word with
  | [] => none
  | c :: _ =>
    if c.isDigit || Keyword.all.any (fun k => k.text.toList = word) then none
    else some word.length

-- ---------------------------------------------------------------------------
-- Literals
-- ---------------------------------------------------------------------------

/-- A run of digits. -/
def int (cs : List Char) : Option Nat :=
  let digits := cs.takeWhile Char.isDigit
  if digits.isEmpty then none else some digits.length

/-- Digits on both sides of a point. -/
def float (cs : List Char) : Option Nat :=
  match int cs with
  | none => none
  | some n =>
    match cs.drop n with
    | '.' :: tail => (int tail).map (n + 1 + ·)
    | _ => none

/-- The rest of a string literal, with its closing quote. A backslash takes
the character behind it along, whatever it is; a line may not end otherwise. -/
def stringTail : List Char → Option Nat
  | '"' :: _ => some 1
  | '\\' :: _ :: cs => (stringTail cs).map (· + 2)
  | c :: cs => if isNewline c then none else (stringTail cs).map (· + 1)
  | [] => none

/-- A string literal with its quotes. -/
def string : List Char → Option Nat
  | '"' :: cs => (stringTail cs).map (· + 1)
  | _ => none

/-- The text that the inside of a string literal stands for: `\n`, `\t` and
`\r` are control characters, and any other escaped character is itself. -/
def unescape : List Char → List Char
  | '\\' :: 'n' :: cs => '\n' :: unescape cs
  | '\\' :: 't' :: cs => '\t' :: unescape cs
  | '\\' :: 'r' :: cs => '\r' :: unescape cs
  | '\\' :: c :: cs => c :: unescape cs
  | c :: cs => c :: unescape cs
  | [] => []

end Cairn.Word
