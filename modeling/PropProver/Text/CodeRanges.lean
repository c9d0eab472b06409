/-!
# Ranges of code points

A class of characters is given as a list of ranges of code points, both ends included.
-/

namespace PropProver

/-- A class of characters: ranges of code points, both ends included. -/
abbrev CodeRanges := List (Nat × Nat)

/-- The character lies in one of the ranges. -/
def CodeRanges.contains (r : CodeRanges) (c : Char) : Bool :=
  r.any fun (first, last) => decide (first ≤ c.toNat ∧ c.toNat ≤ last)

end PropProver
