/-!
# TOML documents

A document is a table of values by key. Tables come about in several ways, and how a table or an
array came about decides what may still be added to it further down in a document.

## Main definitions

* `Toml`: a value.
* `Toml.Entries.add?`: one more entry, possibly under a dotted key.
* `Toml.Entries.within?`: a change to the table that a header names.
-/

namespace NoteShell

/-- How a table came about. -/
inductive Toml.Origin where
  /-- It is written in braces. -/
  | inline
  /-- It has a header of its own. -/
  | header
  /-- It holds a table that has a header. -/
  | implied
  /-- It is named in a dotted key. -/
  | dotted
deriving DecidableEq

/-- A value in a document. -/
inductive Toml where
  | text (value : String)
  | int (value : Int)
  | float (value : Float)
  | bool (value : Bool)
  /-- A date, a time, or both, as written. -/
  | moment (written : String)
  /-- An array, to which headers add tables where it is `growing`. -/
  | array (growing : Bool) (items : List Toml)
  | table (origin : Toml.Origin) (entries : List (String × Toml))

namespace Toml

/-- The entries of a table, in order. -/
abbrev Entries := List (String × Toml)

/-- A key: the names of the tables that lead to an entry, and the name of the entry. -/
structure Key where
  path : List String
  name : String

namespace Entries

/-- The value of a name. -/
def get? (name : String) : Entries → Option Toml
  | [] => none
  | (n, v) :: rest => if n = name then some v else get? name rest

/-- The entries with another value of a name that they have. -/
def set (name : String) (value : Toml) (entries : Entries) : Entries :=
  entries.map fun e => if e.1 = name then (name, value) else e

/-- The entries with one more. No name can be given a value twice. -/
def addName? (name : String) (value : Toml) (entries : Entries) : Option Entries :=
  match get? name entries with
  | none => some (entries ++ [(name, value)])
  | some _ => none

/-- Whether a dotted key may lead into a table, and to one of its entries where `last` is set. -/
def Origin.takesDotted (last : Bool) : Origin → Bool
  | .inline | .header => false
  | .implied => !last
  | .dotted => true

/-- The entries with one more under a dotted key. -/
def addBelow? (name : String) (value : Toml) : (path : List String) → Entries → Option Entries
  | [], entries => addName? name value entries
  | step :: path, entries =>
    match get? step entries with
    | none =>
      (addBelow? name value path []).map fun inner => entries ++ [(step, .table .dotted inner)]
    | some (.table origin inner) =>
      if Origin.takesDotted path.isEmpty origin then
        (addBelow? name value path inner).map fun inner => set step (.table origin inner) entries
      else none
    | some (.array true items) =>
      match items.getLast? with
      | some (.table origin inner) =>
        if path.isEmpty then none
        else
          (addBelow? name value path inner).map fun inner =>
            set step (.array true (items.dropLast ++ [.table origin inner])) entries
      | _ => none
    | some _ => none

/-- The entries with one more. -/
def add? (key : Key) (value : Toml) (entries : Entries) : Option Entries :=
  addBelow? key.name value key.path entries

/-- The entries with several more, in order. -/
def addAll? : List (Key × Toml) → Entries → Option Entries
  | [], entries => some entries
  | (key, value) :: rest, entries => (add? key value entries).bind (addAll? rest)

/-- The entries with a change to the table at a path. An array of tables leads to its last table. -/
def within? (change : Entries → Option Entries) : (path : List String) → Entries → Option Entries
  | [], entries => change entries
  | step :: path, entries =>
    match get? step entries with
    | none =>
      (within? change path []).map fun inner => entries ++ [(step, .table .implied inner)]
    | some (.table origin inner) =>
      if origin = .inline then none
      else (within? change path inner).map fun inner => set step (.table origin inner) entries
    | some (.array true items) =>
      match items.getLast? with
      | some (.table origin inner) =>
        (within? change path inner).map fun inner =>
          set step (.array true (items.dropLast ++ [.table origin inner])) entries
      | _ => none
    | some _ => none

/-- The entries with a table under its own header, which may so far only have been implied. -/
def define? (name : String) (fill : Entries → Option Entries) (entries : Entries) :
    Option Entries :=
  match get? name entries with
  | none => (fill []).map fun inner => entries ++ [(name, .table .header inner)]
  | some (.table .implied inner) =>
    (fill inner).map fun inner => set name (.table .header inner) entries
  | some _ => none

/-- The entries with one more table in an array of tables. -/
def append? (name : String) (fill : Entries → Option Entries) (entries : Entries) :
    Option Entries :=
  match get? name entries with
  | none =>
    (fill []).map fun inner => entries ++ [(name, .array true [.table .header inner])]
  | some (.array true items) =>
    (fill []).map fun inner => set name (.array true (items ++ [.table .header inner])) entries
  | some _ => none

end Entries

end Toml

end NoteShell
