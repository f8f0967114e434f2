import NoteShell.Decimal.Word
import NoteShell.Script.Effect
import NoteShell.Script.Range
import NoteShell.Script.Repr

/-!
# Sequences

The items of texts, lists, dicts and ranges: how many there are, what a position or a slice selects,
and what iterating over them gives. Negative positions count from the end. Texts are sequences of
characters, and a dict gives its keys.
-/

namespace NoteShell.Script

/-- Fail where a sequence would have too many items. -/
def checkLength (n : Nat) : Except EvalError Unit :=
  if maxSequence < n then .error (.overflow .sequence) else .ok ()

/-- Whether a value counts as true. -/
def truthy (h : Heap) : Value → Bool
  | .none => false
  | .bool b => b
  | .int i => i != 0
  | .float x => x != 0
  | .str s => !s.isEmpty
  | .list r => !(h.items r).isEmpty
  | .dict r => !(h.entries r).isEmpty
  | .range r => 0 < r.length
  | _ => true

/-- The length of a range, where it is a 64-bit integer. -/
def rangeLength (r : Range) : Except EvalError Nat :=
  if r.length ≤ Decimal.greatestInt64 then .ok r.length else .error (.overflow .rangeLength)

/-- The number of items of a value. -/
def lengthOf (h : Heap) : Value → Except EvalError Nat
  | .str s => .ok s.length
  | .list r => .ok (h.items r).size
  | .dict r => .ok (h.entries r).length
  | .range r => rangeLength r
  | v => .error (.type (.noLength v.typeName))

/-- The terms of a range, where there are not too many. -/
def rangeTerms (r : Range) : Except EvalError (List Int64) := do
  checkLength (← rangeLength r)
  return r.terms

/-- The items that iterating over a value gives. -/
def itemsOf (h : Heap) : Value → Except EvalError (Array Value)
  | .list r => .ok (h.items r)
  | .dict r => .ok ((h.entries r).map fun e => .str e.1).toArray
  | .str s => .ok (s.toList.map fun c => .str (String.singleton c)).toArray
  | .range r => do
    let terms ← rangeTerms r
    return (terms.map Value.int).toArray
  | v => .error (.type (.notIterable v.typeName))

/-- The position that an index means in a sequence of `n` items. -/
def position? (i : Int64) (n : Nat) : Option Nat :=
  let resolved := if i.toInt < 0 then i.toInt + n else i.toInt
  if 0 ≤ resolved ∧ resolved < n then some resolved.toNat else none

/-- The index that a value is. -/
def indexOf (container : String) (v : Value) : Except EvalError Int64 :=
  match v.asInt? with
  | some i => .ok i
  | none => .error (.type (.indexType container v.typeName))

/-- What was found at a position, or an error where nothing was. -/
def orIndexError {α : Type} (e : IndexError) : Option α → Except EvalError α
  | some a => .ok a
  | none => .error (.index e)

/-- The item at an index, or the value of a key, where `shown` is the form of the key in an
error. -/
def getItem (h : Heap) (shown : Value → String) (container index : Value) :
    Except EvalError Value :=
  match container with
  | .list r => do
    let i ← indexOf "list" index
    let items := h.items r
    orIndexError .list ((position? i items.size).bind fun n => items[n]?)
  | .str s => do
    let i ← indexOf "string" index
    let c ← orIndexError .text ((position? i s.length).bind fun n => s.toList[n]?)
    return .str (String.singleton c)
  | .dict r =>
    match index with
    | .str key =>
      match Entries.get? key (h.entries r) with
      | some v => .ok v
      | none => .error (.key (shown index))
    | _ => .error (.key (shown index))
  | .range r => do
    let i ← indexOf "range" index
    let n ← rangeLength r
    let n ← orIndexError .range (position? i n)
    return .int (r.term n)
  | v => .error (.type (.notSubscriptable v.typeName))

/-- The position that a bound of a slice means in a sequence of `n` items. -/
def sliceBound (bound : Option Value) (n default : Nat) : Except EvalError Nat :=
  match bound with
  | none => .ok default
  | some .none => .ok default
  | some v =>
    match v.asInt? with
    | none => .error (.type .sliceType)
    | some i =>
      let resolved := if i.toInt < 0 then i.toInt + n else i.toInt
      .ok (max 0 (min resolved n)).toNat

/-- The number of items of a value that has slices. -/
def slicedLength (h : Heap) : Value → Except EvalError Nat
  | .str s => lengthOf h (.str s)
  | .list r => lengthOf h (.list r)
  | .range r => lengthOf h (.range r)
  | v => .error (.type (.notSubscriptable v.typeName))

/-- The items from one position up to another. -/
def partOf (container : Value) (first last : Nat) : HeapOp := do
  match container with
  | .str s => return .str (String.ofList ((s.toList.drop first).take (last - first)))
  | .list r => HeapM.perform (.newList (((← get).items r).extract first last))
  | .range r => return .range (r.slice first last)
  | _ => return .none

/-- The items between two bounds. -/
def sliceOf (container : Value) (start stop : Option Value) : HeapOp := do
  let h ← get
  let n ← slicedLength h container
  let first ← sliceBound start n 0
  let last ← sliceBound stop n n
  partOf container first (max last first)

/-- The text that a dict key is. -/
def dictKey (key : Value) : Except EvalError String :=
  match key with
  | .str s => .ok s
  | v => .error (.type (.keyType v.typeName))

/-- Set the item at an index or the value of a key. -/
def setItem (container index value : Value) : HeapM Unit := do
  let h ← get
  match container with
  | .list r =>
    let i ← indexOf "list" index
    let n ← orIndexError .assignment (position? i (h.items r).size)
    HeapM.updateList r (·.setIfInBounds n value)
  | .dict r =>
    let key ← dictKey index
    HeapM.updateDict r (Entries.set key value)
  | v => HeapM.fail (.type (.noItemAssignment v.typeName))

/-- An array without the item at a position. -/
def removeAt (items : Array Value) (n : Nat) : Array Value := items.eraseIdxIfInBounds n

/-- The key that a value of any type is, where there is an entry for it. -/
def presentKey? (entries : Entries) (key : Value) : Option String :=
  match key with
  | .str k => if (Entries.get? k entries).isSome then some k else none
  | _ => none

/-- Delete the item at an index or the entry of a key. A dict stays locked while a missing key is
shown. -/
def deleteItem (container index : Value) : HeapM Unit := do
  let h ← get
  match container with
  | .list r =>
    let i ← indexOf "list" index
    let n ← orIndexError .assignment (position? i (h.items r).size)
    HeapM.updateList r (removeAt · n)
  | .dict r =>
    match presentKey? (h.entries r) index with
    | some key => HeapM.updateDict r (Entries.erase key)
    | none =>
      let shown ← orCrash (reprUnless h r index)
      HeapM.fail (.key shown)
  | v => HeapM.fail (.type (.noItemDeletion v.typeName))

end NoteShell.Script
