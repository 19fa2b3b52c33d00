import Cairn.Number.Digits

/-!
# Cairn — integers as text

Signed numbers have 64 bits and may carry either sign. Unsigned ones may carry
a plus, never a minus, not even on zero. A number outside its range is no
number: nothing is clamped or wrapped while reading.
-/

namespace Cairn

/-- Splits an optional sign off; `true` is minus. -/
def readSign : List Char → Bool × List Char
  | '-' :: cs => (true, cs)
  | '+' :: cs => (false, cs)
  | cs => (false, cs)

/-- The first number that is too large for 64 bits with a sign. -/
def signedBound : Nat := 0x8000000000000000

/-- Reads a signed number of 64 bits. -/
def readSigned? (cs : List Char) : Option Int64 :=
  let signed := readSign cs
  match readDigits? signed.2 with
  | none => none
  | some n =>
    if signed.1 then
      if n ≤ signedBound then some (Int64.ofInt (-(n : Int))) else none
    else
      if n < signedBound then some (Int64.ofNat n) else none

/-- The digits of a signed number, behind a minus if it is negative. -/
def signedText (i : Int64) : String :=
  let n := i.toInt
  String.ofList (if n < 0 then '-' :: digitsOf n.natAbs else digitsOf n.natAbs)

/-- Reads an unsigned number below `bound`. -/
def readUnsigned? (bound : Nat) (cs : List Char) : Option Nat :=
  let signed := readSign cs
  if signed.1 then none
  else
    match readDigits? signed.2 with
    | none => none
    | some n => if n < bound then some n else none

/-- The digits of an unsigned number. -/
def unsignedText (n : Nat) : String :=
  String.ofList (digitsOf n)

end Cairn
