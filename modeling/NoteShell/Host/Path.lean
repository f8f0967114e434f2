import NoteShell.Text.Search

/-!
# Paths

A path leads from the working directory, or from the root where it begins with a slash, to a place
in the tree of directories. It consists of steps between slashes: a name leads into a directory, two
dots lead out of one, and a dot or nothing at all stays in it.

## Main definitions

* `Place`: where a path may lead.
* `Place.step`: where one step leads.
* `pathSteps`, `pathStart`: the steps of a path and where they start.
-/

namespace NoteShell

open NoteShell.Text

/-- A place in the tree of directories: the names that lead to it, the last one first. Two dots
stand for the directories above the working directory, and the empty name for the root. -/
abbrev Place := List String

namespace Place

/-- Where a step leads from a directory. -/
def step (place : Place) (name : String) : Place :=
  if name = "" ∨ name = "." then place
  else if name = ".." then
    match place with
    | [] | ".." :: _ => ".." :: place
    | [""] => place
    | _ :: above => above
  else name :: place

/-- Whether a place is the working directory, a directory above it, or the root. These directories
are always there. -/
def isGiven (place : Place) : Bool := place.all fun name => name == "" || name == ".."

/-- A path that leads to a place. -/
def path (place : Place) : String := join "/" place.reverse

end Place

/-- The steps of a path. -/
def pathSteps (path : String) : List String := splitAll "/" path

/-- Where the steps of a path start. -/
def pathStart (path : String) : Place := if startsWith "/" path then [""] else []

/-- The path of the directory in which a path leads to a name. -/
def directoryPath (path : String) : String := join "/" (pathSteps path).dropLast

/-- The path of a name in a directory. -/
def joinPath (dir name : String) : String :=
  if dir.isEmpty then name else if endsWith "/" dir then dir ++ name else dir ++ "/" ++ name

/-- The number of bytes that a name may have. -/
def maxNameBytes : Nat := 255

/-- The number of bytes that a path may have. -/
def maxPathBytes : Nat := 4095

end NoteShell
