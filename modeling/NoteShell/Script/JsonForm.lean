import NoteShell.Decimal.Word
import NoteShell.Script.Repr
import NoteShell.Script.Sequence

/-!
# Values and JSON

What skills receive: values become JSON documents, functions their names and ranges their terms. A
value that contains itself, or nests more than 128 containers, cannot be passed. In the other
direction every document becomes a value, with new containers for its arrays and objects.
-/

namespace NoteShell.Script

/-- The deepest nesting of containers that a skill receives. -/
def maxSkillNesting : Nat := 128

/-- Results in order, or the first error. -/
def collect {α β : Type} (f : α → Except EvalError β) :
    (acc : List β) → List α → Except EvalError (List β)
  | acc, [] => .ok acc.reverse
  | acc, a :: rest =>
    match f a with
    | .ok b => collect f (b :: acc) rest
    | .error e => .error e

/-- The JSON form of a value that is not a container. -/
def scalarJson (h : Heap) : Value → Except EvalError Json
  | .bool b => .ok (.bool b)
  | .int i => .ok (.int i.toInt)
  | .float x => .ok (if x.isFinite then .float x else .null)
  | .str s => .ok (.str s)
  | .range r => do
    let terms ← rangeTerms r
    return .arr (terms.map fun i => .int i.toInt)
  | .function r => .ok (.str (h.functionName r))
  | .builtin b => .ok (.str b.name)
  | .skill name => .ok (.str name)
  | .strMethod _ m => .ok (.str m.name)
  | .listMethod _ m => .ok (.str m.name)
  | .dictMethod _ m => .ok (.str m.name)
  | .type t => .ok (.str t.text)
  | _ => .ok .null

/-- The JSON form of a value inside the given open containers, with a number of levels left. -/
def jsonWithin (h : Heap) :
    (levels : Nat) → (openLists : List ListRef) → (openDicts : List DictRef) → Value →
      Except EvalError Json
  | levels, openLists, openDicts, .list r =>
    if openLists.contains r then .error (.value .circular)
    else
      match levels with
      | 0 => .error (.value .tooDeepForSkill)
      | levels + 1 =>
        let form := jsonWithin h levels (r :: openLists) openDicts
        (collect form [] (h.items r).toList).map Json.arr
  | levels, openLists, openDicts, .dict r =>
    if openDicts.contains r then .error (.value .circular)
    else
      match levels with
      | 0 => .error (.value .tooDeepForSkill)
      | levels + 1 =>
        let form := fun (e : String × Value) =>
          (jsonWithin h levels openLists (r :: openDicts) e.2).map (e.1, ·)
        (collect form [] (h.entries r)).map Json.object
  | _, _, _, v => scalarJson h v

/-- The JSON form of a value. -/
def toJson (h : Heap) (v : Value) : Except EvalError Json := jsonWithin h maxSkillNesting [] [] v

mutual

/-- The value of a document. -/
def ofJson (h : Heap) : Json → Value × Heap
  | .null => (.none, h)
  | .bool b => (.bool b, h)
  | .int i =>
    match Decimal.int64? i with
    | some word => (.int word, h)
    | none => (.float (Float.ofInt i), h)
  | .float x => (.float x, h)
  | .str s => (.str s, h)
  | .arr items =>
    let (values, h) := ofJsonItems h items
    h.newList values.toArray
  | .obj members =>
    let (entries, h) := ofJsonMembers h members
    h.newDict entries

/-- The values of documents in order. -/
def ofJsonItems (h : Heap) : List Json → List Value × Heap
  | [] => ([], h)
  | item :: rest =>
    let (v, h) := ofJson h item
    let (values, h) := ofJsonItems h rest
    (v :: values, h)

/-- The entries for the members of an object in order. -/
def ofJsonMembers (h : Heap) : List (String × Json) → Entries × Heap
  | [] => ([], h)
  | (key, item) :: rest =>
    let (v, h) := ofJson h item
    let (entries, h) := ofJsonMembers h rest
    ((key, v) :: entries, h)

end

/-- A new dict with the members of an object. -/
def dictOfMembers (h : Heap) (members : Json.Members) : Value × Heap := ofJson h (.obj members)

end NoteShell.Script
