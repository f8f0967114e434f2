import NoteShell.Script.CallArgs
import NoteShell.Script.Repr
import NoteShell.Script.Sequence
import NoteShell.Script.Sort

/-!
# Methods of lists

Changes of a list in place, and questions about its items.
-/

namespace NoteShell.Script

/-- An array with an item put in at a position, or at the end where the position is beyond it. -/
def insertAt (items : Array Value) (n : Nat) (v : Value) : Array Value :=
  (items.extract 0 n).push v ++ items.extract n items.size

/-- The position at which an insertion takes place: negative indices count from the end, and those
outside of the list mean its nearer end. -/
def insertPosition (i : Int64) (n : Nat) : Nat :=
  if i.toInt < 0 then (i.toInt + n).toNat else min i.toInt.toNat n

/-- Call a method of a list. The list is locked while an item to be removed is looked for. -/
def callListMethod (sorter : Sorter) (r : ListRef) (m : ListMethod) (args : CallArgs) : HeapOp := do
  let name := "list." ++ m.name
  args.onlyKeywords name (if m = .sort then ["reverse"] else [])
  let h ← get
  let items := h.items r
  match m with
  | .append =>
    args.checkArity name 1 1
    checkLength (items.size + 1)
    HeapM.updateList r (·.push args.first)
    return .none
  | .extend =>
    args.checkArity name 1 1
    let extra ← itemsOf h args.first
    checkLength (items.size + extra.size)
    HeapM.updateList r (· ++ extra)
    return .none
  | .insert =>
    args.checkArity name 2 2
    let i ← intArgument args.first
    checkLength (items.size + 1)
    HeapM.updateList r (insertAt · (insertPosition i items.size) args.second)
    return .none
  | .pop =>
    args.checkArity name 0 1
    if items.isEmpty then
      HeapM.fail (.index .popEmpty)
    let i ←
      match args.positional? 0 with
      | some v => intArgument v
      | none => pure (-1)
    let n ← orIndexError .pop (position? i items.size)
    HeapM.updateList r (removeAt · n)
    return items.getD n .none
  | .remove =>
    args.checkArity name 1 1
    match ← orCrash (findEqual (equalUnless h (some r) · args.first) 0 items.toList) with
    | some n =>
      HeapM.updateList r (removeAt · n)
      return .none
    | none => HeapM.fail (.value .removeMissing)
  | .index =>
    args.checkArity name 1 1
    match ← orCrash (findEqual (equalValues h · args.first) 0 items.toList) with
    | some n => return .int (Int64.ofNat n)
    | none => HeapM.fail (.value (.notInList (reprValue h args.first)))
  | .count =>
    args.checkArity name 1 1
    let n ← orCrash (countEqual (equalValues h · args.first) items.toList)
    return .int (Int64.ofNat n)
  | .clear =>
    args.checkArity name 0 0
    HeapM.updateList r fun _ => #[]
    return .none
  | .reverse =>
    args.checkArity name 0 0
    HeapM.updateList r Array.reverse
    return .none
  | .sort =>
    args.checkArity name 0 0
    let reverse := truthy h ((args.keyword? "reverse").getD .none)
    let sorted ← sortValues sorter h reverse items
    HeapM.updateList r fun _ => sorted
    return .none
  | .copy =>
    args.checkArity name 0 0
    HeapM.perform (.newList items)

end NoteShell.Script
