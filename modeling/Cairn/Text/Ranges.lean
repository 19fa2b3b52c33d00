/-!
# Cairn — sets of characters

A set of characters is written as the ranges of its code points.
-/

namespace Cairn

/-- Ranges of code points, each by its first and its last one. -/
abbrev Ranges := List (Nat × Nat)

/-- Whether a code point is in one of the ranges. -/
def Ranges.holds (ranges : Ranges) (n : Nat) : Bool :=
  ranges.any fun range => range.1 ≤ n && n ≤ range.2

end Cairn
