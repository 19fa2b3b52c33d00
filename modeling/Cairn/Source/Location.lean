/-!
# Cairn — positions in a source text

A `Place` is a point between two characters of a text. It is counted three
ways at once: in bytes of the UTF-8 form, for slicing and underlining, and in
lines and columns, for people. A `Span` is a stretch of bytes and a `Location`
is a span together with the line and column of its first character.

Only a line feed starts a new line. A carriage return takes up a column like
any other character.
-/

namespace Cairn

-- ---------------------------------------------------------------------------
-- Places
-- ---------------------------------------------------------------------------

/-- A point of a text: the bytes in front of it, and its line and column, both
counted from one. -/
structure Place where
  offset : Nat := 0
  line : Nat := 1
  column : Nat := 1
deriving DecidableEq, Repr

namespace Place

/-- The place behind the character `c` that stands at `p`. -/
def next (p : Place) (c : Char) : Place :=
  if c = '\n' then
    { offset := p.offset + c.utf8Size, line := p.line + 1, column := 1 }
  else
    { offset := p.offset + c.utf8Size, line := p.line, column := p.column + 1 }

/-- The place behind the text `cs` that starts at `p`. -/
def after (p : Place) (cs : List Char) : Place :=
  cs.foldl next p

@[simp] theorem after_nil (p : Place) : p.after [] = p := rfl

@[simp] theorem after_cons (p : Place) (c : Char) (cs : List Char) :
    p.after (c :: cs) = (p.next c).after cs := rfl

theorem after_append (p : Place) (cs ds : List Char) :
    p.after (cs ++ ds) = (p.after cs).after ds :=
  List.foldl_append

end Place

-- ---------------------------------------------------------------------------
-- Spans and locations
-- ---------------------------------------------------------------------------

/-- The bytes from `start` up to, and without, `stop`. -/
structure Span where
  start : Nat
  stop : Nat
deriving DecidableEq, Repr

namespace Span

/-- From the start of `a` to the end of `b`. -/
def combine (a b : Span) : Span :=
  ⟨a.start, b.stop⟩

/-- The characters of `cs` that start inside the span, where the first one of
`cs` stands at byte `offset`. -/
def select (s : Span) (offset : Nat) : List Char → List Char
  | [] => []
  | c :: cs =>
    if s.start ≤ offset ∧ offset < s.stop then
      c :: s.select (offset + c.utf8Size) cs
    else
      s.select (offset + c.utf8Size) cs

/-- The text that the span covers. -/
def textIn (s : Span) (source : String) : String :=
  String.ofList (s.select 0 source.toList)

end Span

/-- Where a construct stands: its span, and the line and column at which the
span starts. -/
structure Location where
  span : Span
  line : Nat
  column : Nat
deriving DecidableEq, Repr

namespace Location

/-- From the start of `a` to the end of `b`, at the line and column of `a`. -/
def through (a b : Location) : Location :=
  { a with span := a.span.combine b.span }

/-- The text `line:column`, which every message starts with. -/
def text (l : Location) : String :=
  s!"{l.line}:{l.column}"

/-- The stretch between two places. -/
def between (p q : Place) : Location :=
  { span := ⟨p.offset, q.offset⟩, line := p.line, column := p.column }

end Location

end Cairn
