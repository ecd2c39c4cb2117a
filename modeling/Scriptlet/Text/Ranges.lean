/-!
# Ranges of characters

Properties of characters that no formula describes are given as tables of
ranges of code points.
-/

namespace Scriptlet.Text

/-- Whether a character lies in one of some ranges of code points, both ends
    included. -/
def inRanges (ranges : Array (Nat × Nat)) (c : Char) : Bool :=
  ranges.any fun range => range.1 ≤ c.toNat && c.toNat ≤ range.2

end Scriptlet.Text
