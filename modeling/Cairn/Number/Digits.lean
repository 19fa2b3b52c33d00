/-!
# Cairn — runs of decimal digits

Numbers are read from and written as ASCII digits only, whatever digits other
scripts may have.
-/

namespace Cairn

/-- The number that a run of digits spells, most significant first. -/
def digitsValue (cs : List Char) : Nat :=
  cs.foldl (fun n c => 10 * n + (c.toNat - '0'.toNat)) 0

/-- The digits of `n`, most significant first and `0` for zero. -/
def digitsOf (n : Nat) : List Char :=
  Nat.toDigits 10 n

/-- Reads a text that is one or more digits and nothing else. -/
def readDigits? (cs : List Char) : Option Nat :=
  if !cs.isEmpty && cs.all Char.isDigit then some (digitsValue cs) else none

end Cairn
