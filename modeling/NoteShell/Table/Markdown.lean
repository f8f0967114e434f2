import NoteShell.Decimal.Read
import NoteShell.Table.Basic
import NoteShell.Text.Search
import NoteShell.Text.Trim

/-!
# Tables in Markdown

A table is written with pipes between its cells. A column without a header in front numbers the rows
from zero. All lines have the same widths, and columns of numbers are aligned to the right.
-/

namespace NoteShell

open NoteShell.Decimal NoteShell.Text

/-- How a column is written. -/
structure ColumnLayout where
  width : Nat
  alignRight : Bool

/-- The least width of a column. -/
def minColumnWidth : Nat := 3

/-- Whether cells hold numbers: at least one of them is not blank, and those are all numbers. -/
def areNumbers (cells : List String) : Bool :=
  let values := (cells.map trim).filter fun cell => !cell.isEmpty
  !values.isEmpty && values.all fun cell => (readFloat? cell.toList).isSome

/-- The width of the widest cell, and at least the least width of a column. -/
def columnWidth (cells : List String) : Nat :=
  cells.foldl (fun width cell => max width cell.length) minColumnWidth

/-- The cells of a column. -/
def Table.column (t : Table) (n : Nat) : List String := t.rows.map fun row => row.getD n ""

/-- The numbers of the rows, as written in the first column. -/
def Table.rowNumbers (t : Table) : List String := (List.range t.rows.length).map natText

/-- The layout of the columns with the given header and number, from there on. -/
def layoutFrom (t : Table) : (n : Nat) → List String → List ColumnLayout
  | _, [] => []
  | n, header :: rest =>
    let cells := t.column n
    ⟨columnWidth (header :: cells), areNumbers cells⟩ :: layoutFrom t (n + 1) rest

/-- The layout of all columns, the numbers of the rows first. -/
def Table.layout (t : Table) : List ColumnLayout :=
  ⟨columnWidth t.rowNumbers, true⟩ :: layoutFrom t 0 t.headers

/-- A cell with blanks up to the width of its column. -/
def ColumnLayout.pad (c : ColumnLayout) (cell : String) : String :=
  let blanks := String.ofList (List.replicate (c.width - cell.length) ' ')
  if c.alignRight then blanks ++ cell else cell ++ blanks

/-- A cell as written, up to the pipe after it. -/
def ColumnLayout.cellText (c : ColumnLayout) (cell : String) : String := " " ++ c.pad cell ++ " |"

/-- The part of a column in the line below the header, where a colon marks the aligned side. -/
def ColumnLayout.ruleText (c : ColumnLayout) : String :=
  let dashes := String.ofList (List.replicate (c.width + 1) '-')
  if c.alignRight then dashes ++ ":|" else ":" ++ dashes ++ "|"

/-- The line of a row. -/
def rowLine (layout : List ColumnLayout) (cells : List String) : String :=
  "|" ++ join "" (List.zipWith ColumnLayout.cellText layout cells)

/-- The lines of a table. -/
def Table.lines (t : Table) : List String :=
  let layout := t.layout
  let rule := "|" ++ join "" (layout.map ColumnLayout.ruleText)
  let rows := List.zipWith (fun number row => number :: row) t.rowNumbers t.rows
  rowLine layout ("" :: t.headers) :: rule :: rows.map (rowLine layout)

/-- A table in Markdown. -/
def Table.toMarkdown (t : Table) : String := join "\n" t.lines

end NoteShell
