import NoteShell.Script.CallArgs
import NoteShell.Script.Sequence

/-!
# Methods of dicts

Looking up, listing and changing the entries of a dict. A key that is no text is in no dict.
-/

namespace NoteShell.Script

/-- The value of a key that may be of any type. -/
def lookUp (entries : Entries) (key : Value) : Option Value :=
  match key with
  | .str k => Entries.get? k entries
  | _ => none

/-- New lists of two items, the key and the value of each entry, in reverse before `acc`. -/
def entryLists : (acc : List Value) → Entries → Heap → Array Value × Heap
  | acc, [], h => (acc.reverse.toArray, h)
  | acc, (k, v) :: rest, h =>
    let (pair, h) := h.newList #[.str k, v]
    entryLists (pair :: acc) rest h

/-- Make a new list of the entries as lists of two items. -/
def listEntries (entries : Entries) : Effect := fun h =>
  let (pairs, h) := entryLists [] entries h
  h.newList pairs

/-- Set entries one after the other. -/
def setEntries (dict : Value) : Entries → HeapM Unit
  | [] => pure ()
  | (key, v) :: rest => do
    setItem dict (.str key) v
    setEntries dict rest

/-- Call a method of a dict. -/
def callDictMethod (r : DictRef) (m : DictMethod) (args : CallArgs) : HeapOp := do
  let name := "dict." ++ m.name
  args.onlyKeywords name []
  let h ← get
  let entries := h.entries r
  match m with
  | .get =>
    args.checkArity name 1 2
    return (lookUp entries args.first).getD args.second
  | .keys =>
    args.checkArity name 0 0
    HeapM.perform (.newList (entries.map fun e => Value.str e.1).toArray)
  | .values =>
    args.checkArity name 0 0
    HeapM.perform (.newList (entries.map fun e => e.2).toArray)
  | .items =>
    args.checkArity name 0 0
    HeapM.perform (listEntries entries)
  | .pop =>
    args.checkArity name 1 2
    match lookUp entries args.first, args.first with
    | some v, .str k =>
      HeapM.updateDict r (Entries.erase k)
      return v
    | _, _ =>
      match args.positional? 1 with
      | some default => return default
      | none => HeapM.fail (.key (reprValue h args.first))
  | .update =>
    args.checkArity name 1 1
    match args.first with
    | .dict s =>
      setEntries (.dict r) (h.entries s)
      return .none
    | v => HeapM.fail (.type (.notMapping v.typeName))
  | .clear =>
    args.checkArity name 0 0
    HeapM.updateDict r fun _ => []
    return .none
  | .copy =>
    args.checkArity name 0 0
    HeapM.perform (.newDict entries)

end NoteShell.Script
