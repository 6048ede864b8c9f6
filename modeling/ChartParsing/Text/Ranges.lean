/-!
# Ranges of characters

A property of characters given by a standard is kept as a list of ranges of
code points, both ends included.
-/

namespace ChartParsing.Text

def inRanges (ranges : List (Nat × Nat)) (code : Nat) : Bool :=
  ranges.any fun range => range.1 ≤ code && code ≤ range.2

end ChartParsing.Text
