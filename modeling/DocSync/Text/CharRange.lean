/-! Sets of characters given as ascending ranges of code points. -/

namespace DocSync.Text

/-- Membership in ascending, disjoint ranges; the search stops at the first range above the code. -/
def inRanges (code : Nat) : List (Nat × Nat) → Bool
  | [] => false
  | (low, high) :: rest => if code < low then false else code ≤ high || inRanges code rest

end DocSync.Text
