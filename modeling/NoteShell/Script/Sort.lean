import NoteShell.Script.Compare
import NoteShell.Script.Effect
import NoteShell.Script.SortPlan

/-!
# Sorting

Sorting is stable in both directions. Two items without an order count as equal while the sort goes
on, and the first two of them that it comes upon are named in the error that it then ends in.

Up to twenty items are inserted one by one, which decides these two. How more items are sorted is
left to a sorter. Items without an order may lead it to give up, which is a crash.
-/

namespace NoteShell.Script

/-- Types of two items without an order, as they were compared. -/
abbrev Unordered := TypeName × TypeName

/-- The longest list that is sorted by insertion. -/
def insertionLimit : Nat := 20

/-- The plan by which a number of items is sorted. -/
def Sorter.planFor (sorter : Sorter) (count : Nat) : SortPlan count :=
  if count ≤ insertionLimit then Sorter.insertion.plan count else sorter.plan count

/-- The order of two items in a direction. -/
def inDirection (reverse : Bool) (o : Ordering) : Ordering := if reverse then o.swap else o

/-- Follow a plan by comparing items: the positions in order, and the first two items found without
an order. -/
def SortPlan.run {count : Nat} (order : Value → Value → Option (Option Ordering)) (reverse : Bool)
    (item : Fin count → Value) : (noted : Option Unordered) → SortPlan count →
    Except Failure (List (Fin count) × Option Unordered)
  | noted, .done sorted => .ok (sorted, noted)
  | noted, .compare i j next =>
    match order (item i) (item j) with
    | some (some o) => (next (inDirection reverse o)).run order reverse item noted
    | some none =>
      (next .eq).run order reverse item (noted.or (some ((item i).typeName, (item j).typeName)))
    | none => .error .crash
  | _, .giveUp => .error .crash

/-- The item at a position. -/
def itemAt (items : Array Value) (i : Fin items.size) : Value := items[i]

/-- Items in order. -/
def sortItems (sorter : Sorter) (order : Value → Value → Option (Option Ordering)) (reverse : Bool)
    (items : Array Value) : Except Failure (Array Value) := do
  let (sorted, noted) ← (sorter.planFor items.size).run order reverse (itemAt items) none
  match noted with
  | none => return (sorted.map (itemAt items)).toArray
  | some (left, right) => throw (.error (.type (.notOrdered .less left right)))

/-- The items of a list in order. -/
def sortValues (sorter : Sorter) (h : Heap) (reverse : Bool) (items : Array Value) :
    Except Failure (Array Value) :=
  sortItems sorter (compareValues h) reverse items

end NoteShell.Script
