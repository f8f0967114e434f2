/-!
# Integers of 64 bits

The script's integers have 64 bits and a sign. A computation is done on the integers of mathematics,
and its result becomes a word only where it lies in the range of one: `int64?` refuses what lies
outside, and `nearestInt64` goes to the end of the range.
-/

namespace NoteShell.Decimal

/-- The least integer of 64 bits. -/
def leastInt64 : Int := -9223372036854775808

/-- The greatest integer of 64 bits. -/
def greatestInt64 : Int := 9223372036854775807

/-- An integer as a 64-bit word, if it fits. -/
def int64? (i : Int) : Option Int64 :=
  if leastInt64 ≤ i ∧ i ≤ greatestInt64 then some (Int64.ofInt i) else none

theorem toInt_of_int64? {i : Int} {word : Int64} (h : int64? i = some word) : word.toInt = i := by
  unfold int64? at h
  split at h
  · rename_i hfits
    cases h
    exact Int64.toInt_ofInt_of_le hfits.1 (Int.lt_add_one_of_le hfits.2)
  · cases h

/-- The nearest integer of 64 bits. -/
def nearestInt64 (i : Int) : Int64 := Int64.ofInt (max leastInt64 (min i greatestInt64))

end NoteShell.Decimal
