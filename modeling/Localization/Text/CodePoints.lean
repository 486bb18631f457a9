/-!
# Sets of characters

A property of characters is a set of code points, given by closed ranges. The ranges ascend and
stand apart, so no code point lies in two of them and no two of them could be joined.

## Main definitions

* `CodePoints` — a set of code points
* `CodePoints.contains` — membership of a character
-/

namespace Localization.Text

/-- Whether closed ranges ascend from a bound and leave a gap between any two. -/
def ascendingFrom (bound : Nat) : List (Nat × Nat) → Bool
  | [] => true
  | (first, last) :: rest => bound ≤ first && first ≤ last && ascendingFrom (last + 2) rest

/-- A set of code points. -/
structure CodePoints where
  /-- Closed ranges of code points. -/
  ranges : List (Nat × Nat)
  ascending : ascendingFrom 0 ranges = true := by decide +kernel

namespace CodePoints

/-- Whether a character belongs to the set. -/
def contains (s : CodePoints) (c : Char) : Bool :=
  s.ranges.any fun (first, last) => first ≤ c.toNat && c.toNat ≤ last

end CodePoints

end Localization.Text
