import NoteShell.Skill.Registry
import NoteShell.Table.Markdown
import NoteShell.Table.Read

/-!
# Table skills

The skills `csv_table` and `excel_table` write the table in a file as Markdown. Whatever is wrong
with the file or with the choice of what to read from it, the message is the same.
-/

namespace NoteShell

/-- The message for a table that cannot be read. -/
def noTableText : String := "Unable to load the table"

/-- Write a table, or the message that there is none. -/
def writeTable (table : Option Table) (host : Host) : Host :=
  match table with
  | some t => host.emit ("\n" ++ t.toMarkdown ++ "\n")
  | none => host.emit (noTableText ++ "\n")

/-- The separator that an argument asks for. -/
def separatorOf : Option Json → Option String
  | none => some ","
  | some (.str sep) => some sep
  | some _ => none

/-- The sheet that an argument asks for: by name or by position, and the first one by default. -/
def SheetChoice.ofJson? : Option Json → Option SheetChoice
  | none => some (.position 0)
  | some (.str s) => some (.name s)
  | some (.int i) => if 0 ≤ i then some (.position i.toNat) else none
  | some _ => none

/-- A skill that writes the table in the file at its first argument, as its second one asks for. -/
def tableSkill (name option : String) (read : Files → String → Option Json → Option Table) :
    Skill where
  name := name
  action call host :=
    match call.args.requiredText 0 "path" name with
    | .error e => (.error e, host)
    | .ok path =>
      (.ok (), writeTable (read host.files path (call.args.get? 1 option)) (host.lookForTable path))

/-- The skill that writes the table in a file of delimited text. -/
def csvTable : Skill :=
  tableSkill "csv_table" "sep" fun files path sep => do
    let sep ← separatorOf sep
    (readDelimitedFile files path sep).toOption

/-- The skill that writes the table on a sheet of a workbook. -/
def excelTable : Skill :=
  tableSkill "excel_table" "sheet_name" fun files path choice => do
    let choice ← SheetChoice.ofJson? choice
    (readSheet files path choice).toOption

/-- The table skills. -/
def tableModule : SkillModule := .available "tables" [csvTable, excelTable]

end NoteShell
