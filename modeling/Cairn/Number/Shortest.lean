import Cairn.Number.Decimal

/-!
# Cairn — writing floating point numbers

A finite number is written with the fewest digits that read back as the same
number. Of two such decimals the nearer one is taken, and the greater one if
both are equally near.

A `Layout` says how the digits are set. The two in use differ in whether an
exponent may appear and in how a whole number ends.

## Main definitions

* `Double.shortest` — the digits.
* `Layout.plain`    — never an exponent, and no point in a whole number.
* `Layout.exact`    — always a point or an exponent; very large and very small
  numbers have an exponent.
-/

namespace Cairn

-- ---------------------------------------------------------------------------
-- Digits
-- ---------------------------------------------------------------------------

namespace Decimal

/-- Whether `coefficient * 10 ^ exponent` is at most `num / den`. -/
def le (d : Decimal) (num den : Nat) : Bool :=
  if 0 ≤ d.exponent then d.coefficient * Nat.pow 10 d.exponent.toNat * den ≤ num
  else d.coefficient * den ≤ num * Nat.pow 10 d.exponent.natAbs

/-- The quotient of `num / den` by `10 ^ exponent`, without its fraction. -/
def scaleDown (num den : Nat) (exponent : Int) : Nat :=
  if 0 ≤ exponent then num / (den * Nat.pow 10 exponent.toNat)
  else num * Nat.pow 10 exponent.natAbs / den

/-- The exponent of the greatest power of ten that is at most `num / den`. The
binary logarithm gives it up to one. -/
def leadingExponent (num den : Nat) : Int :=
  let guess := ((num.log2 : Int) - den.log2) * 1233 / 4096
  if le ⟨1, guess + 1⟩ num den then guess + 1
  else if le ⟨1, guess⟩ num den then guess
  else if le ⟨1, guess - 1⟩ num den then guess - 1
  else guess - 2

end Decimal

namespace Double

/-- The decimal of `places` digits that reads back as the given finite
magnitude, if there is one. Only the two neighbours of the value can. -/
def shortestOf? (magnitude places : Nat) : Option Decimal :=
  let num := units magnitude
  let den := unitsInOne
  let exponent := Decimal.leadingExponent num den + 1 - places
  let below := Decimal.scaleDown num den exponent
  let low : Decimal := ⟨below, exponent⟩
  let high : Decimal := ⟨below + 1, exponent⟩
  let highIsNear := Decimal.le ⟨2 * below + 1, exponent⟩ (2 * num) den
  if low.nearest = magnitude then
    if high.nearest = magnitude ∧ highIsNear then some high else some low
  else if high.nearest = magnitude then some high
  else none

/-- All the digits of a finite magnitude. -/
def exactDecimal (magnitude : Nat) : Decimal :=
  ⟨units magnitude * Nat.pow 5 1074, -1074⟩

/-- The fewest digits that read back as the given finite magnitude. Seventeen
are always enough. -/
def shortest (magnitude : Nat) : Decimal :=
  ((List.range 17).findSome? fun n => shortestOf? magnitude (n + 1)).getD (exactDecimal magnitude)

end Double

-- ---------------------------------------------------------------------------
-- Layout
-- ---------------------------------------------------------------------------

/-- How the digits of a number are set. -/
structure Layout where
  /-- Exponents are used below this power of ten, if there is such a bound. -/
  least : Option Int
  /-- Exponents are used from this power of ten on, if there is such a bound. -/
  greatest : Option Int
  /-- What ends a whole number that is written without an exponent. -/
  whole : String

namespace Layout

/-- Never an exponent, and nothing behind a whole number. -/
def plain : Layout where
  least := none
  greatest := none
  whole := ""

/-- An exponent below `10 ^ -4` and from `10 ^ 16` on; other whole numbers end
in `.0`. -/
def exact : Layout where
  least := some (-4)
  greatest := some 16
  whole := ".0"

/-- Whether a number whose first digit stands for `10 ^ leading` has an
exponent. -/
def scientific (l : Layout) (leading : Int) : Bool :=
  l.least.any (fun e => leading < e) || l.greatest.any (fun e => e ≤ leading)

/-- The digits without an exponent, where `point` digits stand in front of the
point. -/
def positional (l : Layout) (digits : List Char) (point : Int) : List Char :=
  if point ≤ 0 then '0' :: '.' :: List.replicate point.natAbs '0' ++ digits
  else if digits.length ≤ point.toNat then
    digits ++ List.replicate (point.toNat - digits.length) '0' ++ l.whole.toList
  else digits.take point.toNat ++ '.' :: digits.drop point.toNat

/-- The first digit, the others behind a point, and the exponent. -/
def withExponent (digits : List Char) (leading : Int) : List Char :=
  let others := digits.drop 1
  let exponent := if leading < 0 then '-' :: digitsOf leading.natAbs else digitsOf leading.natAbs
  digits.take 1 ++ (if others.isEmpty then [] else '.' :: others) ++ 'e' :: exponent

/-- A decimal that is not zero. Zeros at its end do not count as digits. -/
def decimal (l : Layout) (d : Decimal) : List Char :=
  let all := digitsOf d.coefficient
  let digits := (all.reverse.dropWhile (· == '0')).reverse
  let point : Int := all.length + d.exponent
  if l.scientific (point - 1) then withExponent digits (point - 1) else l.positional digits point

/-- A floating point number. What is not a number has no sign. -/
def double (l : Layout) (x : Double) : String :=
  if x.isNaN then "NaN"
  else
    let sign := if x.negative then ['-'] else []
    let digits :=
      if x.isInfinite then "inf".toList
      else if x.isZero then '0' :: l.whole.toList
      else l.decimal (Double.shortest x.magnitude)
    String.ofList (sign ++ digits)

end Layout

end Cairn
