/-!
# JSON documents

A document is null, a boolean, a number, a text, an array or an object. Numbers without fraction and
exponent are integers of at most 64 bits, signed or unsigned; all other numbers are floats. The
members of an object are kept in the order of their keys, each key once.
-/

namespace NoteShell

/-- A JSON document. -/
inductive Json where
  | null
  | bool (value : Bool)
  | int (value : Int)
  | float (value : Float)
  | str (text : String)
  | arr (items : List Json)
  | obj (members : List (String × Json))

namespace Json

instance : Inhabited Json := ⟨null⟩

/-- The members of an object. -/
abbrev Members := List (String × Json)

/-- Members with one more, in key order; the new value replaces an old one of the same key. -/
def insert (key : String) (value : Json) : Members → Members
  | [] => [(key, value)]
  | (k, v) :: rest =>
    if k = key then (key, value) :: rest
    else if key < k then (key, value) :: (k, v) :: rest
    else (k, v) :: insert key value rest

/-- The value of a key among the members of an object. -/
def find? (key : String) : Members → Option Json
  | [] => none
  | (k, v) :: rest => if k = key then some v else find? key rest

/-- Members in key order, the last of several values of a key counting. -/
def membersOf (entries : List (String × Json)) : Members :=
  entries.foldl (fun acc e => insert e.1 e.2 acc) []

/-- The object with the given members in any order. -/
def object (entries : List (String × Json)) : Json :=
  obj (membersOf entries)

/-- The member of an object with the given key. -/
def get? (key : String) : Json → Option Json
  | obj members => find? key members
  | _ => none

/-- The text of a JSON text. -/
def asText? : Json → Option String
  | str s => some s
  | _ => none

/-- The members of a JSON object. -/
def asMembers? : Json → Option Members
  | obj members => some members
  | _ => none

end Json

end NoteShell
