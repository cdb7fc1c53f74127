/-!
Character classes given as lists of code point ranges.
-/

namespace ScopeLint.Text

def inRanges (ranges : List (Nat × Nat)) (point : Nat) : Bool :=
  ranges.any fun range => range.1 ≤ point && point ≤ range.2

end ScopeLint.Text
