import NoteShell.Decimal.Notation

/-!
# Workbooks

Sheets of cells, as far as tables need them: a name, and rows of cells from the top left corner on.
-/

namespace NoteShell

/-- The content of a cell. -/
inductive Cell where
  | absent
  | text (s : String)
  | bool (value : Bool)
  | number (value : Float)
  /-- A day count, with the time of day as its fraction. -/
  | date (serial : Float)
  | error (code : String)

/-- The text shown for a cell. -/
def Cell.shown : Cell → String
  | absent => ""
  | text s => s
  | bool b => if b then "true" else "false"
  | number x => Decimal.plainText x
  | date x => Decimal.plainText x
  | error code => code

/-- Whether a cell holds nothing. -/
def Cell.isAbsent : Cell → Bool
  | absent => true
  | _ => false

/-- A sheet of a workbook. -/
structure Sheet where
  name : String
  rows : List (List Cell)

/-- A spreadsheet document. -/
structure Workbook where
  sheets : List Sheet

end NoteShell
