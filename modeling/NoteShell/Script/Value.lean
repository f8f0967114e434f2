import NoteShell.Grammar.Tree
import NoteShell.Script.Kind

/-!
# Values and the heap

Lists, dicts and functions live in a heap and are passed around by reference, so that a change made
through one name is seen through all others. All other values are immutable. The entries of a dict
keep the order in which their keys were first set.
-/

namespace NoteShell.Script

open NoteShell.Grammar

/-- A reference to a list. -/
structure ListRef where
  index : Nat
deriving DecidableEq

/-- A reference to a dict. -/
structure DictRef where
  index : Nat
deriving DecidableEq

/-- A reference to a function that a program has defined. -/
structure FunctionRef where
  index : Nat
deriving DecidableEq

/-- An arithmetic progression that ends before `stop`. -/
structure Range where
  start : Int64
  stop : Int64
  step : Int64
deriving DecidableEq

/-- Values of the language. -/
inductive Value where
  | none
  | bool (value : Bool)
  | int (value : Int64)
  | float (value : Float)
  | str (text : String)
  | list (ref : ListRef)
  | dict (ref : DictRef)
  | range (range : Range)
  | function (ref : FunctionRef)
  | builtin (b : Builtin)
  | skill (name : String)
  | strMethod (text : String) (method : StrMethod)
  | listMethod (ref : ListRef) (method : ListMethod)
  | dictMethod (ref : DictRef) (method : DictMethod)
  | type (name : TypeName)

instance : Inhabited Value := ⟨.none⟩

namespace Value

/-- The type of a value. -/
def typeName : Value → TypeName
  | none => .none
  | bool _ => .bool
  | int _ => .int
  | float _ => .float
  | str _ => .str
  | list _ => .list
  | dict _ => .dict
  | range _ => .range
  | function _ => .function
  | builtin _ => .builtin
  | skill _ => .function
  | strMethod .. => .builtin
  | listMethod .. => .builtin
  | dictMethod .. => .builtin
  | type _ => .type

/-- Whether a value is none. -/
def isNone : Value → Bool
  | none => true
  | _ => false

/-- A whole number, truth values counting as zero and one. -/
def asInt? : Value → Option Int64
  | bool b => some (if b then 1 else 0)
  | int i => some i
  | _ => Option.none

/-- A number as a float. -/
def asFloat? : Value → Option Float
  | float x => some x
  | v => v.asInt?.map Int64.toFloat

/-- Whether a value is a number; truth values are. -/
def isNumber : Value → Bool
  | bool _ => true
  | int _ => true
  | float _ => true
  | _ => false

end Value

/-- The entries of a dict in order. -/
abbrev Entries := List (String × Value)

namespace Entries

/-- The value of a key. -/
def get? (key : String) : Entries → Option Value
  | [] => none
  | (k, v) :: rest => if k = key then some v else get? key rest

/-- The entries with a key set: an existing key keeps its place, a new one goes to the end. -/
def set (key : String) (value : Value) : Entries → Entries
  | [] => [(key, value)]
  | (k, v) :: rest => if k = key then (key, value) :: rest else (k, v) :: set key value rest

/-- The entries without a key. -/
def erase (key : String) : Entries → Entries
  | [] => []
  | (k, v) :: rest => if k = key then rest else (k, v) :: erase key rest

/-- The keys in order. -/
def keys (entries : Entries) : List String := entries.map (·.1)

end Entries

/-- A function that a program has defined, with the defaults evaluated at its definition. -/
structure Function where
  name : String
  /-- The parameters with their default values. -/
  params : List (String × Option Value)
  body : List Stmt

/-- The lists, dicts and functions that references point to. -/
structure Heap where
  lists : Array (Array Value)
  dicts : Array Entries
  functions : Array Function

namespace Heap

/-- A heap without anything in it. -/
def empty : Heap := ⟨#[], #[], #[]⟩

/-- The items of a list. -/
def items (h : Heap) (r : ListRef) : Array Value := h.lists.getD r.index #[]

/-- The entries of a dict. -/
def entries (h : Heap) (r : DictRef) : Entries := h.dicts.getD r.index []

/-- The function that a reference points to. -/
def function (h : Heap) (r : FunctionRef) : Function := h.functions.getD r.index ⟨"", [], []⟩

/-- Change the items of a list. -/
def updateList (h : Heap) (r : ListRef) (f : Array Value → Array Value) : Heap :=
  { h with lists := h.lists.modify r.index f }

/-- Change the entries of a dict. -/
def updateDict (h : Heap) (r : DictRef) (f : Entries → Entries) : Heap :=
  { h with dicts := h.dicts.modify r.index f }

/-- A new list. -/
def newList (h : Heap) (items : Array Value) : Value × Heap :=
  (.list ⟨h.lists.size⟩, { h with lists := h.lists.push items })

/-- A new dict. -/
def newDict (h : Heap) (entries : Entries) : Value × Heap :=
  (.dict ⟨h.dicts.size⟩, { h with dicts := h.dicts.push entries })

/-- A new function. -/
def newFunction (h : Heap) (f : Function) : Value × Heap :=
  (.function ⟨h.functions.size⟩, { h with functions := h.functions.push f })

/-- The number of containers in the heap. -/
def size (h : Heap) : Nat := h.lists.size + h.dicts.size

end Heap

end NoteShell.Script
