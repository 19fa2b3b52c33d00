import Cairn.Text.Alphanumeric
import Cairn.Text.Escape
import Cairn.Text.LineBreak
import Cairn.Text.Width

/-!
# Cairn — text in lines

Breaks a text into lines that are not too wide. A text is a row of words, which
end where a line may end or at a hyphen. A line ends where the next word would
not fit; the blanks there are dropped, and all others are kept. A word that is
wider than a line is cut. Escape sequences take up no room.

## Main statements

* `Wrap.text_words` — the words of a text hold all of it, in its order.
-/

namespace Cairn

namespace Wrap

/-- A word and how many blanks follow it. -/
structure Chunk where
  chars : List Char
  blanks : Nat
deriving DecidableEq, Repr

/-- The text of a word with its blanks. -/
def Chunk.text (w : Chunk) : List Char :=
  w.chars ++ List.replicate w.blanks ' '

-- ---------------------------------------------------------------------------
-- Widths
-- ---------------------------------------------------------------------------

/-- How many columns a character takes up; a control character takes none. -/
def columns (c : Char) : Nat :=
  if c.toNat < 0x20 || (0x7f ≤ c.toNat && c.toNat < 0xa0) then 0 else charWidth c

/-- How many columns a cell takes up. -/
def cellWidth : Cell → Nat
  | .shown c => columns c
  | .hidden _ => 0

/-- How wide a text is. -/
def width (cs : List Char) : Nat :=
  (cells cs).foldl (fun n x => n + cellWidth x) 0

-- ---------------------------------------------------------------------------
-- Words
-- ---------------------------------------------------------------------------

/-- A hyphen that is shown only where a line ends. -/
def softHyphen : Char :=
  '\u00ad'

/-- Whether a character is a hyphen. Line ends behind hyphens have rules of
their own, see `atHyphens`. -/
def isHyphen (c : Char) : Bool :=
  c = '-' || c = softHyphen

/-- The flags without the last one that is set. -/
def withoutLast : List Bool → List Bool
  | [] => []
  | b :: bs => if bs.any id then b :: withoutLast bs else false :: bs

/-- For every character, whether a word starts there. The last word of a text
that ends in a hyphen is one with the word before it. -/
def wordStarts (cs : List Char) : List Bool :=
  let starts := List.zipWith (fun before b => b && ! isHyphen before) (' ' :: cs) (lineBreaks cs)
  if (cs.getLast?.map isHyphen).getD false then withoutLast starts else starts

/-- The text of each word, with the blanks behind it. There is a flag for every
shown character, whether a word starts there; a sequence that is not shown goes
with the character behind it. `piece` is what was read of the first word, and
`held` what is not shown behind it, both with the last character first. -/
def pieces (piece held : List Char) : List Cell → List Bool → List (List Char)
  | [], _ => if piece.isEmpty && held.isEmpty then [] else [(held ++ piece).reverse]
  | .hidden cs :: xs, starts => pieces piece (cs.reverse ++ held) xs starts
  | .shown c :: xs, starts =>
    if starts.headD false then piece.reverse :: pieces (c :: held) [] xs starts.tail
    else pieces (c :: (held ++ piece)) [] xs starts.tail

/-- A word with its blanks counted. -/
def chunk (cs : List Char) : Chunk :=
  let word := (cs.reverse.dropWhile (· = ' ')).reverse
  ⟨word, cs.length - word.length⟩

/-- Whether there is a letter or a digit. -/
def atLetter (c : Option Char) : Bool :=
  (c.map isAlphanumeric).getD false

/-- The parts of a word, which end behind hyphens between letters or digits.
`part` is what was read of the first one, last character first. The blanks follow
the last part. -/
def atHyphens (blanks : Nat) (part : List Char) : List Char → List Chunk
  | [] => [⟨part.reverse, blanks⟩]
  | c :: cs =>
    if c = '-' && atLetter part.head? && atLetter cs.head? then
      ⟨(c :: part).reverse, 0⟩ :: atHyphens blanks [] cs
    else atHyphens blanks (c :: part) cs

/-- The words of a text without line feeds. -/
def words (cs : List Char) : List Chunk :=
  let parts := pieces [] [] (cells cs) (wordStarts (Cell.visible (cells cs)))
  (parts.map chunk).flatMap fun w => atHyphens w.blanks [] w.chars

theorem flatten_pieces (piece held : List Char) (xs : List Cell) (starts : List Bool) :
    (pieces piece held xs starts).flatten = piece.reverse ++ held.reverse ++ xs.flatMap Cell.chars := by
  induction xs generalizing piece held starts with
  | nil => unfold pieces; split <;> simp_all
  | cons x xs ih =>
    cases x with
    | hidden cs => simp [pieces, ih, Cell.chars]
    | shown c => unfold pieces; split <;> simp [ih, Cell.chars]

theorem text_chunk (cs : List Char) : (chunk cs).text = cs := by
  have h := List.takeWhile_append_dropWhile (p := fun c => decide (c = ' ')) (l := cs.reverse)
  have hb : cs.reverse.takeWhile (fun c => decide (c = ' ')) =
      List.replicate (cs.length - (cs.reverse.dropWhile (fun c => decide (c = ' '))).length) ' ' := by
    rw [List.eq_replicate_iff]
    constructor
    · have := congrArg List.length h
      simp only [List.length_append, List.length_reverse] at this
      omega
    · intro b hb
      simpa using List.all_eq_true.mp List.all_takeWhile b hb
  unfold chunk Chunk.text
  simp only [List.length_reverse]
  rw [← List.reverse_replicate, ← hb, ← List.reverse_append, h, List.reverse_reverse]

theorem text_atHyphens (blanks : Nat) (part cs : List Char) :
    (atHyphens blanks part cs).flatMap Chunk.text =
      part.reverse ++ cs ++ List.replicate blanks ' ' := by
  induction cs generalizing part with
  | nil => simp [atHyphens, Chunk.text]
  | cons c cs ih => unfold atHyphens; split <;> simp [ih, Chunk.text]

/-- The words of a text hold all of it, in its order. -/
theorem text_words (cs : List Char) : (words cs).flatMap Chunk.text = cs := by
  have h (w : Chunk) : (atHyphens w.blanks [] w.chars).flatMap Chunk.text = w.text := by
    simp [text_atHyphens, Chunk.text]
  unfold words
  simp only [List.flatMap_assoc, h, List.flatMap_map, text_chunk]
  rw [List.flatMap_id', flatten_pieces]
  simp [chars_cells]

-- ---------------------------------------------------------------------------
-- Lines
-- ---------------------------------------------------------------------------

/-- The parts of a word that fit into the limit, where `part` is what was taken
for the first one, last character first, and `used` its width. The blanks follow
the last part. -/
def cut (limit blanks : Nat) (used : Nat) (part : List Char) : List Cell → List Chunk
  | [] => [⟨part.reverse, blanks⟩]
  | .hidden cs :: xs => cut limit blanks used (cs.reverse ++ part) xs
  | .shown c :: xs =>
    if 0 < used ∧ limit < used + columns c then
      ⟨part.reverse, 0⟩ :: cut limit blanks (columns c) [c] xs
    else cut limit blanks (used + columns c) (c :: part) xs

/-- A word as it is, if it fits, and otherwise its parts. -/
def fit (limit : Nat) (w : Chunk) : List Chunk :=
  if width w.chars ≤ limit then [w] else cut limit w.blanks 0 [] (cells w.chars)

/-- Fills lines with words, where `row` holds the words of the first one, last
word first, and `used` is its width with the blanks behind them. -/
def fill (limit used : Nat) (row : List Chunk) : List Chunk → List (List Chunk)
  | [] => [row.reverse]
  | w :: ws =>
    let size := width w.chars
    if limit < used + size ∧ ¬ row.isEmpty then
      row.reverse :: fill limit (size + w.blanks) [w] ws
    else fill limit (used + size + w.blanks) (w :: row) ws

/-- The text of a line, without the blanks behind it. -/
def joined : List Chunk → List Char
  | [] => []
  | [w] => w.chars
  | w :: ws => w.text ++ joined ws

/-- The lines of a text without line feeds. -/
def lines (limit : Nat) (cs : List Char) : List (List Char) :=
  (fill limit 0 [] ((words cs).flatMap (fit limit))).map joined

/-- The texts between line feeds. -/
def paragraphs : List Char → List (List Char)
  | [] => [[]]
  | c :: cs =>
    match paragraphs cs with
    | [] => [[c]]
    | p :: ps => if c = '\n' then [] :: p :: ps else (c :: p) :: ps

end Wrap

/-- The lines of a text, the first one behind `first` and all others behind
`next`, which is as wide. With that they are at most `limit` wide. -/
def wrap (limit : Nat) (first next : String) (text : String) : List String :=
  let room := limit - Wrap.width first.toList
  let rows := (Wrap.paragraphs text.toList).flatMap (Wrap.lines room)
  match rows.map String.ofList with
  | [] => []
  | l :: ls => (first ++ l) :: ls.map (next ++ ·)

end Cairn
