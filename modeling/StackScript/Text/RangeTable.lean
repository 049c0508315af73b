/-!
# Sets of characters given by ranges

A property of characters that a standard fixes by enumeration is kept as a table of inclusive ranges
of code points. The tables of this library list the characters beyond ASCII only; the predicates
over them treat ASCII by its own simple rule.

## Main definitions

* `RangeTable`: a list of inclusive ranges of code points.
* `RangeTable.contains`: membership of a character.
-/

namespace StackScript

/-- A set of characters, as inclusive ranges of code points. -/
structure RangeTable where
  ranges : List (Nat × Nat)

namespace RangeTable

/-- A character belongs to the table when one of the ranges holds its code point. -/
def contains (table : RangeTable) (c : Char) : Bool :=
  table.ranges.any fun range => range.1 ≤ c.toNat && c.toNat ≤ range.2

end RangeTable

end StackScript
