import CodeFrames.Text.Basic

/-!
Sets of characters as tables of code point ranges, both ends included.  The ranges of a table are in
increasing order, so that a search ends at the first range that starts beyond the code point.
-/

namespace CodeFrames.Text

abbrev Ranges := List (Nat × Nat)

def Ranges.contains : Ranges → Nat → Bool
  | [], _ => false
  | (first, last) :: ranges, n =>
      if n < first then false else decide (n ≤ last) || Ranges.contains ranges n

end CodeFrames.Text
