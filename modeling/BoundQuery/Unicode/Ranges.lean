/-
# Ranges of code points

A property of characters is tabulated as a list of closed ranges of code points.
-/

namespace BoundQuery.Unicode

/-- Whether the code point of `c` lies in one of the closed ranges. -/
def inRanges (ranges : List (Nat × Nat)) (c : Char) : Bool :=
  ranges.any fun (first, last) => first ≤ c.toNat && c.toNat ≤ last

end BoundQuery.Unicode
