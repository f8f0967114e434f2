import NoteShell.Host.Files
import NoteShell.Table.Basic
import NoteShell.Table.Delimited
import NoteShell.Text.Quoted

/-!
# Reading tables from files

A table is read from a file of delimited text or from a sheet of a workbook. The table of a sheet is
the smallest rectangle that holds all of its cells.

## Main definitions

* `readDelimitedFile` : the table of a file of delimited text.
* `Sheet.records`, `readSheet` : the cells and the table of a sheet.
-/

namespace NoteShell

open NoteShell.Text

/-! ### Delimited text -/

/-- The table of a delimited text. -/
def tableOfDelimited (sep : Char) (text : String) : Except TableError Table :=
  match parseDelimited? sep text with
  | some records => Table.ofRecords records
  | none => .error .openQuote

/-- The table of a file of delimited text. The separator is a single character. -/
def readDelimitedFile (files : Files) (path sep : String) : Except TableError Table :=
  match sep.toList with
  | [c] =>
    match files.readText? path with
    | some text => tableOfDelimited c text
    | none => .error (.unreadable path)
  | _ => .error (.separator (escaped sep))

/-! ### Sheets -/

/-- The number of absent cells before the first one that is not. -/
private def leadingAbsent (cells : List Cell) : Nat := (cells.takeWhile Cell.isAbsent).length

/-- Cells without absent ones at the end. -/
private def withoutTrailing (cells : List Cell) : List Cell := dropEndWhile Cell.isAbsent cells

/-- Whether all cells of a row are absent. -/
private def isBlankRow (cells : List Cell) : Bool := cells.all Cell.isAbsent

/-- The rows of a sheet without absent cells around them. Rows in between may be blank. -/
private def occupiedRows (rows : List (List Cell)) : List (List Cell) :=
  (dropEndWhile isBlankRow (rows.dropWhile isBlankRow)).map withoutTrailing

/-- The cells of a sheet as texts: the smallest rectangle that holds all cells which are not
absent. -/
def Sheet.records (sheet : Sheet) : List (List String) :=
  let rows := occupiedRows sheet.rows
  let present := rows.filter fun row => !row.isEmpty
  let left := ((present.map leadingAbsent).min?).getD 0
  let right := rows.foldl (fun n row => max n row.length) 0
  rows.map fun row => padRow (right - left) ((row.drop left).map Cell.shown)

/-- Which sheet of a workbook is meant. -/
inductive SheetChoice where
  | position (n : Nat)
  | name (name : String)
deriving DecidableEq

/-- The sheet of a workbook that is meant. -/
def Workbook.sheet (book : Workbook) : SheetChoice → Except TableError Sheet
  | .position n =>
    match book.sheets[n]? with
    | some sheet => .ok sheet
    | none => .error (.noSheetAt n)
  | .name name =>
    match book.sheets.find? fun sheet => sheet.name == name with
    | some sheet => .ok sheet
    | none => .error (.noSheet name)

/-- The ending of the last component of a path after its last dot, unless it begins with that
dot. -/
def extension? (path : String) : Option String :=
  match splitAll "." ((pathSteps path).getLast?.getD "") with
  | [] | [_] | ["", _] => none
  | parts => parts.getLast?

/-- The endings that stand for other kinds of workbooks. -/
def otherWorkbookExtensions : List String := ["xls", "xla", "xlsb", "ods"]

/-- The workbook in a file. -/
def readWorkbook (files : Files) (path : String) : Except TableError Workbook :=
  match files.read path with
  | .ok (.workbook book) =>
    if ((extension? path).map otherWorkbookExtensions.contains).getD false then .error .noWorkbook
    else .ok book
  | _ => .error .noWorkbook

/-- The table of a sheet of the workbook in a file. -/
def readSheet (files : Files) (path : String) (choice : SheetChoice) : Except TableError Table := do
  let book ← readWorkbook files path
  let sheet ← book.sheet choice
  Table.ofRecords sheet.records

end NoteShell
