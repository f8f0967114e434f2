import NoteShell.Script.Arithmetic
import NoteShell.Script.Compare
import NoteShell.Script.Sequence
import NoteShell.Text.Search

/-!
# Operators

Arithmetic on numbers, joining and repeating of texts and lists, comparison and membership.
-/

namespace NoteShell.Script

open NoteShell.Grammar

/-- A text with another one written after it a number of times. -/
def repeatText (s : String) : (count : Nat) → (acc : String) → String
  | 0, acc => acc
  | count + 1, acc => repeatText s count (acc ++ s)

/-- How often a sequence of the given length is repeated by a number. Its total length must not be
too large. -/
def repeatCount (n : Int64) (length : Nat) : Except EvalError Nat := do
  let count := n.toInt.toNat
  checkLength (length * count)
  return count

/-- A text repeated by a number. -/
def repeatedText (s : String) (n : Int64) : Except EvalError Value := do
  let count ← repeatCount n s.utf8ByteSize
  return .str (if s.isEmpty then "" else repeatText s count "")

/-- A new list with the items of a list repeated by a number. -/
def repeatedList (r : ListRef) (n : Int64) : HeapOp := do
  let items := (← get).items r
  let count ← repeatCount n items.size
  HeapM.perform (.newList (if items.isEmpty then #[] else (Array.replicate count items).flatten))

/-- An operator applied to two values that are not both numbers. -/
def sequenceBinary (op : BinaryOp) (a b : Value) : HeapOp := do
  match op, a, b with
  | .add, .str x, .str y =>
    checkLength (x.utf8ByteSize + y.utf8ByteSize)
    return .str (x ++ y)
  | .add, .str _, v => HeapM.fail (.type (.cannotConcatenate .str v.typeName))
  | .add, .list r, .list s =>
    let h ← get
    checkLength ((h.items r).size + (h.items s).size)
    HeapM.perform (.newList (h.items r ++ h.items s))
  | .add, .list _, v => HeapM.fail (.type (.cannotConcatenate .list v.typeName))
  | .mul, a, b =>
    match a, b, a.asInt?, b.asInt? with
    | .str s, _, _, some n => repeatedText s n
    | _, .str s, some n, _ => repeatedText s n
    | .list r, _, _, some n => repeatedList r n
    | _, .list r, some n, _ => repeatedList r n
    | _, _, _, _ => HeapM.fail (.type (.unsupportedOperands .mul a.typeName b.typeName))
  | op, a, b => HeapM.fail (.type (.unsupportedOperands op a.typeName b.typeName))

/-- The result of an arithmetic operator. -/
def binary (op : BinaryOp) (a b : Value) : HeapOp :=
  match numberBinary? op a b with
  | some result => result
  | none => sequenceBinary op a b

/-- The result of an operator with one operand. -/
def unary (op : UnaryOp) (v : Value) (h : Heap) : Except EvalError Value :=
  match op with
  | .not => .ok (.bool !(truthy h v))
  | .negate => signed .minus v
  | .plus => signed .plus v

/-- Whether a value is undefined as a number. -/
private def isUndefined (v : Value) : Bool :=
  match v.asFloat? with
  | some x => x.isNaN
  | none => false

/-- Whether two values are in an order that is accepted. Undefined numbers are in none. -/
private def ordered (op : Comparison) (accept : Ordering → Bool) (a b : Value) (h : Heap) :
    Except Failure Bool := do
  match ← orCrash (compareValues h a b) with
  | some o => return accept o
  | none =>
    if isUndefined a || isUndefined b then
      return false
    throw (.error (.type (.notOrdered op a.typeName b.typeName)))

/-- Whether a value is an item of another: a part of a text, an item of a list, a key of a dict or a
term of a range. -/
def isMember (container item : Value) (h : Heap) : Except Failure Bool :=
  match container with
  | .str s =>
    match item with
    | .str part => .ok (Text.occursIn part s)
    | v => .error (.error (.type (.textMember v.typeName)))
  | .list r => do
    let found ← orCrash (findEqual (equalValues h · item) 0 (h.items r).toList)
    return found.isSome
  | .dict r =>
    match item with
    | .str key => .ok (Entries.get? key (h.entries r)).isSome
    | _ => .ok false
  | .range r =>
    match item.asInt? with
    | some i => .ok (r.contains i)
    | none => .ok false
  | v => .error (.error (.type (.notContainer v.typeName)))

/-- Whether a link of a comparison chain holds. -/
def compares (op : Comparison) (a b : Value) (h : Heap) : Except Failure Bool :=
  match op with
  | .equal => orCrash (equalValues h a b)
  | .notEqual => orCrash ((equalValues h a b).map (!·))
  | .less => ordered op (· == .lt) a b h
  | .lessEqual => ordered op (· != .gt) a b h
  | .greater => ordered op (· == .gt) a b h
  | .greaterEqual => ordered op (· != .lt) a b h
  | .isIn => isMember b a h
  | .notIn => (isMember b a h).map (!·)
  | .same => orCrash (sameValue h a b)
  | .notSame => orCrash ((sameValue h a b).map (!·))

/-- The step of an updating assignment: a list is extended in place by the items of any value, and
everything else is computed anew. -/
def updateInPlace (op : BinaryOp) (current value : Value) : HeapOp := do
  match op, current with
  | .add, .list r =>
    let h ← get
    let extra ← itemsOf h value
    checkLength ((h.items r).size + extra.size)
    HeapM.updateList r (· ++ extra)
    return current
  | op, current => binary op current value

end NoteShell.Script
