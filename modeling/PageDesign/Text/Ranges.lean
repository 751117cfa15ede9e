/-
# PageDesign.Text.Ranges -- ranges of code points

A class of characters that follows no simple rule is a table of ranges in increasing order.
-/

namespace PageDesign.Text

/-- Whether one of some ranges in increasing order has a member. -/
def inRanges (n : Nat) : List (Nat × Nat) → Bool
  | [] => false
  | (first, last) :: ranges => if n < first then false else n ≤ last || inRanges n ranges

end PageDesign.Text
