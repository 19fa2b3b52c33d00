import Cairn.Number.Double
import Cairn.Number.Integer

/-!
# Cairn — reading floating point numbers

A `Decimal` is `coefficient * 10 ^ exponent`. A floating point number is
written as a decimal with an optional point and an optional exponent, or as
one of the words `inf`, `infinity` and `nan` in any case, all with an optional
sign. It stands for the nearest `Double`.
-/

namespace Cairn

/-- The number `coefficient * 10 ^ exponent`. -/
structure Decimal where
  coefficient : Nat
  exponent : Int
deriving DecidableEq, Repr

namespace Decimal

/-- The magnitude nearest to the decimal. Exponents that are out of reach for
the coefficient are settled first, so that no huge power is ever computed. -/
def nearest (d : Decimal) : Nat :=
  if d.coefficient = 0 then 0
  else if 400 ≤ d.exponent then Double.infinity
  else if d.exponent + (d.coefficient.log2 / 3 + 1 : Nat) ≤ -400 then 0
  else if 0 ≤ d.exponent then Double.nearest (d.coefficient * Nat.pow 10 d.exponent.toNat) 1
  else Double.nearest d.coefficient (Nat.pow 10 d.exponent.natAbs)

/-- Reads the exponent that may follow the digits: nothing, or a mark, an
optional sign and at least one digit. -/
def readExponent? : List Char → Option Int
  | [] => some 0
  | c :: cs =>
    if c = 'e' ∨ c = 'E' then
      let signed := readSign cs
      (readDigits? signed.2).map fun n => if signed.1 then -(n : Int) else n
    else none

/-- Reads digits with an optional point, at least one digit on one side of it,
and an optional exponent. -/
def read? (cs : List Char) : Option Decimal :=
  let whole := cs.takeWhile Char.isDigit
  let tail := cs.dropWhile Char.isDigit
  let split :=
    match tail with
    | '.' :: tail => (tail.takeWhile Char.isDigit, tail.dropWhile Char.isDigit)
    | tail => ([], tail)
  if whole.isEmpty && split.1.isEmpty then none
  else (readExponent? split.2).map fun e =>
    ⟨digitsValue (whole ++ split.1), e - split.1.length⟩

end Decimal

namespace Double

/-- The words for the values that have no digits. -/
def readWord? (negative : Bool) (cs : List Char) : Option Double :=
  let word := cs.map Char.toLower
  if word = "inf".toList ∨ word = "infinity".toList then some (ofParts negative infinity)
  else if word = "nan".toList then some (nan negative)
  else none

/-- Reads a floating point number. -/
def read? (cs : List Char) : Option Double :=
  let signed := readSign cs
  match readWord? signed.1 signed.2 with
  | some x => some x
  | none => (Decimal.read? signed.2).map fun d => ofParts signed.1 d.nearest

end Double

end Cairn
