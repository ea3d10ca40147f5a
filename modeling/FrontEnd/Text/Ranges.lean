/-!
# Classes of characters as ranges

A class of characters is given by closed ranges of code points. The ranges stand in ascending order
with a gap between neighbours, so a class is written in one way only, which the type keeps.
-/

namespace FrontEnd

/-- **Whether ranges ascend**: none is empty, and between two neighbours a code point is left out. -/
def isAscending : List (Nat × Nat) → Bool
  | [] => true
  | [(low, high)] => low ≤ high
  | (low, high) :: (next, last) :: rest =>
    low ≤ high && high + 1 < next && isAscending ((next, last) :: rest)

/-- **A class of characters**, as closed ranges of code points that ascend. -/
structure CharClass where
  ranges : List (Nat × Nat)
  ascending : isAscending ranges = true

/-- Whether a character falls in one of the ranges of a class. -/
def CharClass.contains (k : CharClass) (c : Char) : Bool :=
  k.ranges.any fun (low, high) => low ≤ c.toNat && c.toNat ≤ high

end FrontEnd
