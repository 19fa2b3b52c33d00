/-!
# Cairn — text in colour

A report is made of rows, and a row of pieces that each have at most one shade.
Written in colour, a piece with a shade is put between the control sequences
that switch the shade on and off; written plainly, the shades are dropped. So
both ways of writing show the same text.
-/

namespace Cairn

/-- The colours of a report. -/
inductive Shade where
  /-- The kind of the message. -/
  | error
  /-- The frame and the line numbers. -/
  | frame
  /-- The frame beside rows that are not lines of the source. -/
  | faintFrame
  /-- The word in front of advice. -/
  | note
  /-- What the message is about, and the arrow to it. -/
  | mark
  /-- The source around it. -/
  | source
deriving DecidableEq, Repr

/-- The parameters of the control sequence that switches a shade on. -/
def Shade.parameters : Shade → String
  | .error => "31"
  | .frame => "38;5;246"
  | .faintFrame => "38;5;240"
  | .note => "38;5;115"
  | .mark => "38;5;155"
  | .source => "38;5;249"

/-- A text with at most one shade. -/
structure Piece where
  text : String
  shade : Option Shade
deriving DecidableEq, Repr

namespace Piece

/-- A text without a shade. -/
def bare (text : String) : Piece :=
  ⟨text, none⟩

/-- A text with a shade. -/
def shaded (shade : Shade) (text : String) : Piece :=
  ⟨text, some shade⟩

/-- A piece as it is written. -/
def write (colour : Bool) (p : Piece) : String :=
  match colour, p.shade with
  | true, some shade => "\x1b[" ++ shade.parameters ++ "m" ++ p.text ++ "\x1b[0m"
  | _, _ => p.text

end Piece

/-- One row of a report. -/
abbrev Row := List Piece

/-- Rows as they are written, each of them ended. -/
def writeRows (colour : Bool) (rows : List Row) : String :=
  String.join (rows.map fun row => String.join (row.map (Piece.write colour)) ++ "\n")

end Cairn
