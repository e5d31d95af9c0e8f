/-!
# Ranges of code points

A property of characters is kept as the ranges of code points that have it (`CodeRanges.contains`).
-/

namespace ClauseLearning

/-- Ranges of code points, ends included. -/
structure CodeRanges where
  ranges : List (Nat × Nat)
deriving DecidableEq

namespace CodeRanges

def contains (r : CodeRanges) (c : Char) : Bool := r.ranges.any fun (low, high) => low ≤ c.toNat && c.toNat ≤ high

end CodeRanges

end ClauseLearning
