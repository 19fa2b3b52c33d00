/-!
# Cairn — floating point numbers

A `Double` is a binary floating point number of 64 bits, kept as its bits: a
sign, then 63 bits of magnitude. Read as a number, the magnitude grows with
the value it stands for, so one comparison of naturals orders the finite
values and infinity, and everything above infinity is not a number.

A finite value is a whole number of *units*, of which there are `2 ^ 1074` in
one. Each operation works on whole numbers of units and rounds once, in
`nearest`. That makes the arithmetic exact up to the final rounding, which is
what the standard for these numbers asks for.

## Main definitions

* `Double.units`   — the magnitude of a finite value, in units.
* `Double.nearest` — the magnitude that is nearest to a fraction.
* `Double.add`, `Double.sub`, `Double.mul`, `Double.div` — the arithmetic.
* `Double.lt`, `Double.eq` — the order: nothing compares with what is not a
  number, and the two zeros are equal.
-/

namespace Cairn

/-- A binary floating point number of 64 bits. -/
structure Double where
  bits : UInt64
deriving DecidableEq, Repr

namespace Double

-- ---------------------------------------------------------------------------
-- Sign and magnitude
-- ---------------------------------------------------------------------------

/-- The magnitude of the infinities. Whatever is above it is not a number. -/
def infinity : Nat := 0x7ff0000000000000

/-- The sign bit by itself. -/
def signBit : Nat := 0x8000000000000000

/-- The number with the given sign and magnitude. -/
def ofParts (negative : Bool) (magnitude : Nat) : Double :=
  ⟨UInt64.ofNat (magnitude + if negative then signBit else 0)⟩

/-- Whether the sign bit is set. -/
def negative (x : Double) : Bool :=
  signBit ≤ x.bits.toNat

/-- The bits without the sign. -/
def magnitude (x : Double) : Nat :=
  x.bits.toNat % signBit

/-- Not a number. -/
def isNaN (x : Double) : Bool :=
  infinity < x.magnitude

/-- One of the two infinities. -/
def isInfinite (x : Double) : Bool :=
  x.magnitude = infinity

/-- Neither an infinity nor not a number. -/
def isFinite (x : Double) : Bool :=
  x.magnitude < infinity

/-- One of the two zeros. -/
def isZero (x : Double) : Bool :=
  x.magnitude = 0

/-- Not a number, with the given sign. -/
def nan (negative : Bool) : Double :=
  ofParts negative 0x7ff8000000000000

/-- The positive zero. -/
def zero : Double := ⟨0⟩

-- ---------------------------------------------------------------------------
-- Units and rounding
-- ---------------------------------------------------------------------------

/-- How many units there are in one. -/
def unitsInOne : Nat := Nat.pow 2 1074

/-- How many magnitudes there are from one power of two to the next. -/
def binadeSize : Nat := Nat.pow 2 52

/-- How often the spacing of the values has doubled at this magnitude. -/
def binade (magnitude : Nat) : Nat :=
  magnitude / binadeSize - 1

/-- The value of a finite magnitude, in units of `2 ^ -1074`. -/
def units (magnitude : Nat) : Nat :=
  (magnitude - binade magnitude * binadeSize) * Nat.pow 2 (binade magnitude)

/-- The whole number nearest to `n / d`, the even one of two. -/
def roundDiv (n d : Nat) : Nat :=
  let q := n / d
  let r := n % d
  if 2 * r < d then q
  else if d < 2 * r then q + 1
  else q + q % 2

/-- The magnitude nearest to `num / den`, the even one of two, and infinity
past the end of the range. -/
def nearest (num den : Nat) : Nat :=
  let scaled := num * unitsInOne
  let b := (scaled / den).log2 - 52
  min infinity (b * binadeSize + roundDiv scaled (den * Nat.pow 2 b))

/-- The value in units, with its sign; meant for finite numbers. -/
def signedUnits (x : Double) : Int :=
  if x.negative then -(units x.magnitude : Int) else units x.magnitude

-- ---------------------------------------------------------------------------
-- Arithmetic
-- ---------------------------------------------------------------------------

/-- The number nearest to an integer. -/
def ofInt (i : Int) : Double :=
  ofParts (i < 0) (nearest i.natAbs 1)

/-- The same magnitude with the other sign. -/
def neg (x : Double) : Double :=
  ofParts (!x.negative) x.magnitude

/-- The sum. Opposite infinities have none, and a sum that vanishes is the
negative zero only if both terms are negative. -/
def add (x y : Double) : Double :=
  if x.isNaN || y.isNaN then nan false
  else if x.isInfinite then
    if y.isInfinite && x.negative != y.negative then nan false else x
  else if y.isInfinite then y
  else
    let s := x.signedUnits + y.signedUnits
    if s = 0 then ofParts (x.negative && y.negative) 0
    else ofParts (s < 0) (nearest s.natAbs unitsInOne)

/-- The difference. -/
def sub (x y : Double) : Double :=
  x.add y.neg

/-- The product. An infinity times zero has none. -/
def mul (x y : Double) : Double :=
  let sign := x.negative != y.negative
  if x.isNaN || y.isNaN then nan false
  else if x.isInfinite || y.isInfinite then
    if x.isZero || y.isZero then nan false else ofParts sign infinity
  else ofParts sign (nearest (units x.magnitude * units y.magnitude) (unitsInOne * unitsInOne))

/-- The quotient. There is none of two zeros or of two infinities; anything
else over zero is an infinity. -/
def div (x y : Double) : Double :=
  let sign := x.negative != y.negative
  if x.isNaN || y.isNaN then nan false
  else if x.isInfinite then
    if y.isInfinite then nan false else ofParts sign infinity
  else if y.isInfinite then ofParts sign 0
  else if y.isZero then
    if x.isZero then nan false else ofParts sign infinity
  else ofParts sign (nearest (units x.magnitude) (units y.magnitude))

-- ---------------------------------------------------------------------------
-- Order
-- ---------------------------------------------------------------------------

/-- Where the number stands in the order; the zeros stand together. -/
def rank (x : Double) : Int :=
  if x.negative then -(x.magnitude : Int) else x.magnitude

/-- Equality of numbers. -/
def eq (x y : Double) : Bool :=
  !x.isNaN && !y.isNaN && x.rank == y.rank

/-- Strict order of numbers. -/
def lt (x y : Double) : Bool :=
  !x.isNaN && !y.isNaN && decide (x.rank < y.rank)

end Double

end Cairn
