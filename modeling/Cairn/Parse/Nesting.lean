import Cairn.Parse.Error

/-!
# Cairn — nesting in a raw text

Before a text is parsed, one pass over its characters makes sure that brackets
and unary operators do not nest too deeply. The pass knows nothing of the
grammar but strings and comments, which it leaves out.

A run of `-` and `!` adds one level for each of them until the operand that
they apply to is over. A sign that turns out to be a binary operator is counted
the same way: it is over at the next operand as well.
-/

namespace Cairn.Nesting

/-- The levels that are open at a point of the text. -/
structure Levels where
  /-- How many levels are open. -/
  depth : Nat := 0
  /-- How many of them are unary operators that wait for their operand. -/
  pending : Nat := 0
  /-- For each open bracket, the depth to go back to when it closes. -/
  opened : List Nat := []

namespace Levels

/-- The operand has come: the operators in front of it are over. -/
def settle (l : Levels) : Levels :=
  { l with depth := l.depth - l.pending, pending := 0 }

/-- A bracket opens. It is the operand of the operators in front of it, which
are over when it closes. -/
def openBracket (l : Levels) : Levels :=
  { depth := l.depth + 1, pending := 0, opened := (l.depth - l.pending) :: l.opened }

/-- A bracket closes, even if none was open. -/
def closeBracket (l : Levels) : Levels :=
  { depth := l.opened.headD 0, pending := 0, opened := l.opened.tail }

/-- One more unary operator. -/
def addPending (l : Levels) : Levels :=
  { l with depth := l.depth + 1, pending := l.pending + 1 }

/-- The levels behind the character `c`, which is not part of a comment, a
string or a two-character operator. -/
def step (l : Levels) (c : Char) : Levels :=
  if c = '(' ∨ c = '\x7b' then l.openBracket
  else if c = ')' ∨ c = '\x7d' then l.closeBracket
  else if c = '-' ∨ c = '!' then l.addPending
  else if c = ' ' ∨ c = '\t' ∨ c = '\r' ∨ c = '\n' then l
  else l.settle

end Levels

/-- What kind of text the scan is in. -/
inductive Region where
  | code
  | lineComment
  | blockComment
  | string

/-- Scans a text that starts at `p` and gives the first character at which more
than `limit` levels are open. -/
def scan (limit : Nat) : Region → Levels → Place → List Char → Option ParseError
  | .code, l, p, '/' :: '/' :: cs => scan limit .lineComment l ((p.next '/').next '/') cs
  | .code, l, p, '/' :: '*' :: cs => scan limit .blockComment l ((p.next '/').next '*') cs
  | .code, l, p, '!' :: '=' :: cs => scan limit .code l.settle ((p.next '!').next '=') cs
  | .code, l, p, c :: cs =>
    if c = '"' then scan limit .string l (p.next c) cs
    else
      let l' := l.step c
      if limit < l'.depth then
        some ⟨.tooDeep l'.depth limit, .between p (p.next c)⟩
      else scan limit .code l' (p.next c) cs
  | .lineComment, l, p, c :: cs =>
    scan limit (if c = '\n' then .code else .lineComment) l (p.next c) cs
  | .blockComment, l, p, '*' :: '/' :: cs => scan limit .code l ((p.next '*').next '/') cs
  | .blockComment, l, p, c :: cs => scan limit .blockComment l (p.next c) cs
  | .string, l, p, '\\' :: c :: cs => scan limit .string l ((p.next '\\').next c) cs
  | .string, l, p, c :: cs =>
    if c = '"' ∨ c = '\n' then scan limit .code l.settle (p.next c) cs
    else scan limit .string l (p.next c) cs
  | _, _, _, [] => none

/-- The first character at which brackets and unary operators nest more than
`limit` levels deep. -/
def check (limit : Nat) (source : List Char) : Option ParseError :=
  scan limit .code {} {} source

end Cairn.Nesting
