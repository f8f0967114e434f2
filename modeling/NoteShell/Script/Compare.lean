import NoteShell.Script.Value

/-!
# Equality and order

Numbers compare by value across their types. Lists are equal item by item and dicts entry by entry,
in any order; two references to one container are equal. Numbers, texts and lists are ordered among
themselves, lists by their first difference.

A comparison may give no answer. One of values that contain themselves may go down into them without
end, and a list that is locked because it is being changed must not be looked into.
-/

namespace NoteShell.Script

/-- The order of two floats, which an undefined one has not. -/
def compareFloats (x y : Float) : Option Ordering :=
  if x < y then some .lt
  else if x == y then some .eq
  else if y < x then some .gt
  else none

/-- The order of two integers. -/
def compareInts (x y : Int64) : Ordering :=
  if x.toInt < y.toInt then .lt else if x.toInt = y.toInt then .eq else .gt

/-- The order of two texts, by code points. -/
def compareTexts (x y : String) : Ordering :=
  if x < y then .lt else if x = y then .eq else .gt

/-- Equality of two numbers. -/
def equalNumbers (a b : Value) : Bool :=
  match a.asInt?, b.asInt? with
  | some i, some j => i == j
  | _, _ =>
    match a.asFloat?, b.asFloat? with
    | some x, some y => x == y
    | _, _ => false

/-- The order of two numbers. -/
def compareNumbers (a b : Value) : Option Ordering :=
  match a.asInt?, b.asInt? with
  | some i, some j => some (compareInts i j)
  | _, _ =>
    match a.asFloat?, b.asFloat? with
    | some x, some y => compareFloats x y
    | _, _ => none

/-- Equality of two values that are not both lists or both dicts. -/
def equalScalars (a b : Value) : Bool :=
  match a, b with
  | .none, .none => true
  | .str x, .str y => x == y
  | .range r, .range s => r == s
  | .function f, .function g => f == g
  | .builtin f, .builtin g => f == g
  | .skill f, .skill g => f == g
  | .type t, .type u => t == u
  | a, b => a.isNumber && b.isNumber && equalNumbers a b

/-- Whether all pairs are equal, asked one after the other up to the first that is not. -/
def allEqual (equal : Value → Value → Option Bool) : List (Value × Value) → Option Bool
  | [] => some true
  | (a, b) :: rest =>
    match equal a b with
    | some true => allEqual equal rest
    | answer => answer

/-- Whether all entries are equal to those of the same keys in `others`, asked one after the other
up to the first that is not. -/
def entriesEqual (equal : Value → Value → Option Bool) (others : Entries) : Entries → Option Bool
  | [] => some true
  | (key, a) :: rest =>
    match Entries.get? key others with
    | none => some false
    | some b =>
      match equal a b with
      | some true => entriesEqual equal others rest
      | answer => answer

/-- Equality of two values, looking into containers down to a depth and not into the locked list. -/
def equalWithin (h : Heap) (locked : Option ListRef) : (depth : Nat) → Value → Value → Option Bool
  | depth, .list r, .list s =>
    if r = s then some true
    else if locked = some r ∨ locked = some s then none
    else
      match depth with
      | 0 => none
      | depth + 1 =>
        if (h.items r).size = (h.items s).size then
          allEqual (equalWithin h locked depth) ((h.items r).toList.zip (h.items s).toList)
        else some false
  | depth, .dict r, .dict s =>
    if r = s then some true
    else
      match depth with
      | 0 => none
      | depth + 1 =>
        if (h.entries r).length = (h.entries s).length then
          entriesEqual (equalWithin h locked depth) (h.entries s) (h.entries r)
        else some false
  | _, a, b => some (equalScalars a b)

/-- A depth that no comparison with an end exceeds: going down further, a pair of containers comes
up again below itself. -/
def comparisonDepth (h : Heap) : Nat := h.size * h.size + 1

/-- Equality of two values, while a list may be locked. -/
def equalUnless (h : Heap) (locked : Option ListRef) (a b : Value) : Option Bool :=
  equalWithin h locked (comparisonDepth h) a b

/-- Equality of two values. -/
def equalValues (h : Heap) (a b : Value) : Option Bool := equalUnless h none a b

/-- Whether two values are one and the same: the same reference, or equal values of one type. -/
def sameValue (h : Heap) (a b : Value) : Option Bool :=
  match a, b with
  | .list r, .list s => some (r == s)
  | .dict r, .dict s => some (r == s)
  | .function f, .function g => some (f == g)
  | a, b => if a.typeName = b.typeName then equalValues h a b else some false

/-- The order of two lists of values with a given equality and order of items. -/
def compareLists (equal : Value → Value → Option Bool)
    (order : Value → Value → Option (Option Ordering)) :
    List Value → List Value → Option (Option Ordering)
  | [], [] => some (some .eq)
  | [], _ :: _ => some (some .lt)
  | _ :: _, [] => some (some .gt)
  | a :: as, b :: bs =>
    match equal a b with
    | some true => compareLists equal order as bs
    | some false => order a b
    | none => none

/-- The order of two values, looking into lists down to a depth: `some none` where they have
none. -/
def compareWithin (h : Heap) : (depth : Nat) → Value → Value → Option (Option Ordering)
  | 0, .list _, .list _ => none
  | depth + 1, .list r, .list s =>
    compareLists (equalValues h) (compareWithin h depth) (h.items r).toList (h.items s).toList
  | _, .str x, .str y => some (some (compareTexts x y))
  | _, a, b => some (if a.isNumber && b.isNumber then compareNumbers a b else none)

/-- The order of two values, where the comparison has an end. -/
def compareValues (h : Heap) (a b : Value) : Option (Option Ordering) :=
  compareWithin h (comparisonDepth h) a b

/-- The position of the first item that is equal to a value, asked one after the other. -/
def findEqual (equal : Value → Option Bool) : (position : Nat) → List Value →
    Option (Option Nat)
  | _, [] => some none
  | n, v :: rest =>
    match equal v with
    | some true => some (some n)
    | some false => findEqual equal (n + 1) rest
    | none => none

/-- The number of items that are equal to a value, asked one after the other. -/
def countEqual (equal : Value → Option Bool) : List Value → Option Nat
  | [] => some 0
  | v :: rest => do
    let same ← equal v
    let count ← countEqual equal rest
    return if same then count + 1 else count

end NoteShell.Script
