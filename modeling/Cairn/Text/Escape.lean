/-!
# Cairn — escape sequences

A text for a terminal can hold sequences that the terminal obeys and does not
show. They start with an escape character. Behind it a bracket opens a control
sequence, which goes on to its final letter, or a command, which goes on to a
bell or to an escaped backslash; any other character ends the sequence.

## Main statements

* `chars_cells` — the cells of a text hold all of it, in its order.
-/

namespace Cairn

/-- A character that is shown, or a sequence that is not. -/
inductive Cell where
  | shown (c : Char)
  | hidden (cs : List Char)
deriving DecidableEq, Repr

namespace Cell

/-- The text of a cell. -/
def chars : Cell → List Char
  | .shown c => [c]
  | .hidden cs => cs

/-- The characters of a text that are shown. -/
def visible : List Cell → List Char
  | [] => []
  | .shown c :: cells => c :: visible cells
  | .hidden _ :: cells => visible cells

end Cell

namespace Escape

/-- The character that starts a sequence. -/
def escape : Char :=
  '\x1b'

/-- The character that ends a command. -/
def bell : Char :=
  '\x07'

/-- What a character is read as. -/
inductive Mode where
  | text
  /-- Behind an escape character. -/
  | escaped
  /-- Inside a control sequence. -/
  | control
  /-- Inside a command; the flag says whether an escape character is before. -/
  | command (escaped : Bool)
deriving DecidableEq, Repr

/-- The mode behind a character, where `none` says that the sequence ends. -/
def next (mode : Mode) (c : Char) : Option Mode :=
  match mode with
  | .text => if c = escape then some .escaped else none
  | .escaped => if c = '[' then some .control else if c = ']' then some (.command false) else none
  | .control => if '@' ≤ c ∧ c ≤ '~' then none else some .control
  | .command escaped =>
    if c = bell ∨ (escaped ∧ c = '\\') then none else some (.command (c = escape))

/-- Reads the cells of a text, where `held` is what was read of a sequence, last
character first. -/
def read (mode : Mode) (held : List Char) : List Char → List Cell
  | [] => if held.isEmpty then [] else [.hidden held.reverse]
  | c :: cs =>
    match next mode c with
    | some mode => read mode (c :: held) cs
    | none =>
      (if mode = .text then .shown c else .hidden (c :: held).reverse) :: read .text [] cs

end Escape

/-- The cells of a text. -/
def cells (cs : List Char) : List Cell :=
  Escape.read .text [] cs

theorem Escape.chars_read (mode : Mode) (held cs : List Char) (h : mode = .text → held = []) :
    (Escape.read mode held cs).flatMap Cell.chars = held.reverse ++ cs := by
  induction cs generalizing mode held with
  | nil => unfold Escape.read; split <;> simp_all [Cell.chars]
  | cons c cs ih =>
    unfold Escape.read
    split
    · rename_i next hn
      rw [ih _ _ fun ht => ?_]
      · simp
      · subst ht
        exfalso
        unfold Escape.next at hn
        repeat' split at hn
        all_goals simp_all
    · by_cases ht : mode = .text <;> simp_all [Cell.chars]

/-- The cells of a text hold all of it, in its order. -/
theorem chars_cells (cs : List Char) : (cells cs).flatMap Cell.chars = cs := by
  simp [cells, Escape.chars_read]

end Cairn
