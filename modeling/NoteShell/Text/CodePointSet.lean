/-!
# Sets of characters given by the points where membership changes

A property of characters is stored as the sorted list of the code points at which it starts or stops
to hold. A character belongs to the set exactly when an odd number of these points lie at or below
it, which binary search counts.
-/

namespace NoteShell.Text

/-- A set of characters, given by the increasing code points at which membership changes. -/
structure CodePointSet where
  changes : Array Nat

namespace CodePointSet

/-- The number of entries of the increasing array that are at most `n`, searched between `lo` and
`hi`. -/
private def countUpTo (changes : Array Nat) (n lo hi : Nat) : Nat :=
  if lo < hi then
    let mid := (lo + hi) / 2
    if changes.getD mid 0 ≤ n then countUpTo changes n (mid + 1) hi
    else countUpTo changes n lo mid
  else lo
termination_by hi - lo

/-- Whether a character belongs to the set. -/
def contains (s : CodePointSet) (c : Char) : Bool :=
  countUpTo s.changes c.toNat 0 s.changes.size % 2 == 1

end CodePointSet

end NoteShell.Text
