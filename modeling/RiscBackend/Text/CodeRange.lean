/-
# Sets of code points given by ranges

The character classes of the Unicode Standard are published as ranges of code
points. A class beyond ASCII is kept here as a list of closed ranges, and
membership is a search through that list.
-/

namespace RiscBackend.Text

/-- A closed range of code points, given by its first and its last member. -/
abbrev CodeRange := Nat × Nat

/-- Whether a code point lies in one of the ranges of a table. -/
def inRanges (table : List CodeRange) (code : Nat) : Bool :=
  table.any fun range => range.1 ≤ code && code ≤ range.2

end RiscBackend.Text
