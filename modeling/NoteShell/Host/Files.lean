import NoteShell.Host.Path
import NoteShell.Host.Workbook
import NoteShell.Text.Utf8

/-!
# Files

The directories and files that the program can see. Every step of a path must start from a
directory, so a path may lead nowhere although its shorter form leads to a file.

## Main definitions

* `Files`: the directories and files.
* `Files.locate`: the place where a path leads, or why it leads nowhere.
* `Files.read`, `Files.write`: reading from a path and writing to one.
* `Files.makeDirectories`: the directories that a path leads through.
-/

namespace NoteShell

open NoteShell.Text

/-- The content of a file. -/
inductive FileContent where
  | bytes (content : Bytes)
  | workbook (content : Workbook)

/-- The directories that were made, and the files in the order in which they were first written. -/
structure Files where
  directories : List Place
  entries : List (Place × FileContent)

/-- Why nothing can be read from a path. -/
inductive FileFault where
  | missing
  | isDirectory
  | notDirectory
  | nameTooLong
  | zeroByte
  | notText
deriving DecidableEq

namespace FileFault

/-- The wording of a fault. -/
def message : FileFault → String
  | missing => "No such file or directory (os error 2)"
  | isDirectory => "Is a directory (os error 21)"
  | notDirectory => "Not a directory (os error 20)"
  | nameTooLong => "File name too long (os error 36)"
  | zeroByte => "file name contained an unexpected NUL byte"
  | notText => "stream did not contain valid UTF-8"

/-- Whether there is nothing at all at the path. -/
def isAbsence : FileFault → Bool
  | missing | notDirectory | nameTooLong | zeroByte => true
  | isDirectory | notText => false

end FileFault

/-- The fault of a path that cannot even be looked for. -/
def pathFault? (path : String) : Option FileFault :=
  if path.toList.contains '\x00' then some .zeroByte
  else if path.isEmpty then some .missing
  else if maxPathBytes < path.utf8ByteSize then some .nameTooLong
  else none

namespace Files

/-- No directories and files but those that are always there. -/
def empty : Files := ⟨[], []⟩

/-- Whether a directory is at a place. -/
def hasDirectory (files : Files) (place : Place) : Bool :=
  place.isGiven || files.directories.contains place

/-- The content of the file at a place. -/
def contentAt? (files : Files) (place : Place) : Option FileContent :=
  (files.entries.find? fun e => e.1 == place).map (·.2)

/-- Where some steps lead. -/
def follow (files : Files) : Place → List String → Except FileFault Place
  | place, [] => .ok place
  | place, name :: rest =>
    if files.hasDirectory place then
      if maxNameBytes < name.utf8ByteSize then .error .nameTooLong
      else files.follow (place.step name) rest
    else if (files.contentAt? place).isSome then .error .notDirectory
    else .error .missing

/-- The place where a path leads. There need not be anything at the place. -/
def locate (files : Files) (path : String) : Except FileFault Place :=
  match pathFault? path with
  | some fault => .error fault
  | none => files.follow (pathStart path) (pathSteps path)

/-! ### Reading -/

/-- The content of the file at a path, or why there is none. -/
def read (files : Files) (path : String) : Except FileFault FileContent :=
  match files.locate path with
  | .error fault => .error fault
  | .ok place =>
    match files.contentAt? place with
    | some content => .ok content
    | none => .error (if files.hasDirectory place then .isDirectory else .missing)

/-- The text that some content is. -/
def textOf : FileContent → Except FileFault String
  | .bytes content =>
    match decodeUtf8 content with
    | .ok s => .ok s
    | .error _ => .error .notText
  | .workbook _ => .error .notText

/-- The text of the file at a path, or why there is none. -/
def readText (files : Files) (path : String) : Except FileFault String :=
  (files.read path).bind textOf

/-- The text of the file at a path, if it is one. -/
def readText? (files : Files) (path : String) : Option String := (files.readText path).toOption

/-- The text of the file at a place, if it is one. -/
def textAt? (files : Files) (place : Place) : Option String :=
  (files.contentAt? place).bind fun content => (textOf content).toOption

/-- The place of the directory to which a path leads, if there is one. -/
def directory? (files : Files) (dir : String) : Option Place :=
  match files.locate dir with
  | .ok place => if files.hasDirectory place then some place else none
  | .error _ => none

/-- The name by which a place is directly in a directory. -/
def nameIn? (dir : Place) : Place → Option String
  | name :: above => if above = dir then some name else none
  | [] => none

/-- The files directly in a directory, by name, with their places. -/
def inDirectory (files : Files) (dir : String) : List (String × Place) :=
  match files.directory? dir with
  | some dir => files.entries.filterMap fun e => (nameIn? dir e.1).map (·, e.1)
  | none => []

/-- The names of the directories directly in a directory. -/
def directoriesIn (files : Files) (dir : String) : List String :=
  match files.directory? dir with
  | some dir => files.directories.filterMap (nameIn? dir)
  | none => []

/-! ### Writing -/

/-- The entries with the given content at a place. -/
def replaceOrAdd (place : Place) (content : FileContent) :
    List (Place × FileContent) → List (Place × FileContent)
  | [] => [(place, content)]
  | e :: rest =>
    if e.1 = place then (place, content) :: rest else e :: replaceOrAdd place content rest

/-- The place of the file that is written to a path, where this is possible. -/
def target? (files : Files) (path : String) : Option Place :=
  match files.locate path with
  | .ok place => if files.hasDirectory place then none else some place
  | .error _ => none

/-- The files with new content at a path, where it can be written. -/
def write (files : Files) (path : String) (content : FileContent) : Files :=
  match files.target? path with
  | some place => { files with entries := replaceOrAdd place content files.entries }
  | none => files

/-- The place where a step leads, as a directory that is made where nothing was. -/
def enter? (files : Files) (place : Place) (name : String) : Option (Files × Place) :=
  let next := place.step name
  if files.hasDirectory next then some (files, next)
  else if maxNameBytes < name.utf8ByteSize || (files.contentAt? next).isSome then none
  else some ({ files with directories := next :: files.directories }, next)

/-- The files with the directories that some steps lead through, up to the first one that cannot be
made. -/
def makeAlong (files : Files) (place : Place) : List String → Files
  | [] => files
  | name :: rest =>
    match files.enter? place name with
    | some (files, next) => files.makeAlong next rest
    | none => files

/-- The steps of a path through directories that can be made. A dot at the end does not count, and
nor does the name before it, since a dot stays in a directory that is there already. -/
def makeableSteps (path : String) : List String :=
  match (pathSteps path).reverse.dropWhile (· = "") with
  | "." :: rest => ((rest.dropWhile fun name => name = "" ∨ name = ".").drop 1).reverse
  | steps => steps.reverse

/-- The files with the directories that a path leads through and to. -/
def makeDirectories (files : Files) (path : String) : Files :=
  match pathFault? path with
  | some _ => files
  | none => files.makeAlong (pathStart path) (makeableSteps path)

/-- The files with new content at a path, and with the directories that lead there. -/
def add (files : Files) (path : String) (content : FileContent) : Files :=
  (files.makeDirectories (directoryPath path)).write path content

/-- The files without those at the given places. -/
def removeAll (files : Files) (places : List Place) : Files :=
  { files with entries := files.entries.filter fun e => !places.contains e.1 }

end Files

end NoteShell
