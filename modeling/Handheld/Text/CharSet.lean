namespace Handheld.Text

-- The ranges of a set are listed in ascending order, so a search ends at the first one that starts
-- too late.
def inRanges (code : Nat) : List (Nat × Nat) → Bool
  | [] => false
  | (low, high) :: ranges => low ≤ code && (code ≤ high || inRanges code ranges)

-- A set of characters given by ascending, disjoint ranges of code points, both ends included.
structure CharSet where
  ofRanges ::
  ranges : List (Nat × Nat)
  deriving DecidableEq

def CharSet.contains (set : CharSet) (c : Char) : Bool := inRanges c.toNat set.ranges

end Handheld.Text
