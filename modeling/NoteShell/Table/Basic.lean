import NoteShell.Decimal.Notation

/-!
# Tables

A table has a header for each of its columns, and rows of as many cells.
-/

namespace NoteShell

open NoteShell.Decimal

/-- A table of texts. -/
structure Table where
  headers : List String
  rows : List (List String)
  width_eq : ∀ row ∈ rows, row.length = headers.length

/-- Why some data is no table. -/
inductive TableError where
  | noColumns
  | tooManyFields (expected line got : Nat)
  | openQuote
  | separator (shown : String)
  | unreadable (path : String)
  | noWorkbook
  | noSheet (name : String)
  | noSheetAt (index : Nat)
deriving DecidableEq

/-- The wording of an error. -/
def TableError.message : TableError → String
  | noColumns => "No columns to parse"
  | tooManyFields expected line got =>
    "Expected " ++ natText expected ++ " fields in line " ++ natText line ++ ", saw " ++ natText got
  | openQuote => "EOF inside string"
  | separator shown => "Unsupported separator: " ++ shown
  | unreadable path => "Failed to read " ++ path
  | noWorkbook => "Failed to open spreadsheet"
  | noSheet name => "Failed to read sheet '" ++ name ++ "'"
  | noSheetAt index => "Worksheet index " ++ natText index ++ " is invalid"

/-- A row with empty cells added up to a width. -/
def padRow (width : Nat) (row : List String) : List String :=
  row ++ List.replicate (width - row.length) ""

theorem length_padRow {width : Nat} {row : List String} (h : row.length ≤ width) :
    (padRow width row).length = width := by
  simp only [padRow, List.length_append, List.length_replicate]
  omega

/-- The error for the first row that is wider than the header, where `line` is the line of the first
row. -/
def widthError (width : Nat) : (line : Nat) → List (List String) → TableError
  | _, [] => .noColumns
  | line, row :: rest =>
    if width < row.length then .tooManyFields width line row.length
    else widthError width (line + 1) rest

/-- The table of some records, of which the first one is the header. Rows that are too short are
filled up. -/
def Table.ofRecords : List (List String) → Except TableError Table
  | [] => .error .noColumns
  | headers :: rest =>
    if h : ∀ row ∈ rest, row.length ≤ headers.length then
      .ok
        { headers := headers
          rows := rest.map (padRow headers.length)
          width_eq := by
            intro row hrow
            obtain ⟨r, hr, rfl⟩ := List.mem_map.mp hrow
            exact length_padRow (h r hr) }
    else .error (widthError headers.length 2 rest)

end NoteShell
