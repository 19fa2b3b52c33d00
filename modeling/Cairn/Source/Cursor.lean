import Cairn.Source.Location

/-!
# Cairn — reading position

A `Cursor` is the text that is still to be read together with the place where
it starts. The only way forward is `advance`, which keeps the two in step.
-/

namespace Cairn

/-- The text ahead, and the place at which it starts. -/
structure Cursor where
  rest : List Char
  place : Place
deriving DecidableEq, Repr

namespace Cursor

/-- At the start of a text. -/
def ofChars (cs : List Char) : Cursor :=
  ⟨cs, {}⟩

/-- Behind the next `n` characters. -/
def advance (c : Cursor) (n : Nat) : Cursor :=
  ⟨c.rest.drop n, c.place.after (c.rest.take n)⟩

/-- The stretch of text from `c` to the later cursor `d`. -/
def upTo (c d : Cursor) : Location :=
  .between c.place d.place

@[simp] theorem advance_zero (c : Cursor) : c.advance 0 = c := by
  simp [advance]

@[simp] theorem rest_advance (c : Cursor) (n : Nat) : (c.advance n).rest = c.rest.drop n := rfl

end Cursor

end Cairn
