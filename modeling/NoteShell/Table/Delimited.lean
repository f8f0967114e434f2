import NoteShell.Text.Trim

/-!
# Delimited text

Records of fields, one record to a line, with a separator between the fields. A field that begins
with a double quote goes on to the closing one, whatever stands in between, and a doubled quote in
it stands for one. Carriage returns outside of quotes and blank lines are skipped.

## Main definitions

* `DelimitedState` : what has been read of the current record.
* `parseDelimited?` : the records of a text; none where a quote is left open.
-/

namespace NoteShell

/-- The part of a delimited text that has been read, everything in reverse. -/
structure DelimitedState where
  /-- The characters of the current field. -/
  field : List Char
  /-- The finished fields of the current record. -/
  record : List String
  /-- The finished records. -/
  records : List (List String)
  /-- Whether anything of the current record has been read. -/
  started : Bool

namespace DelimitedState

/-- Nothing has been read. -/
def empty : DelimitedState := ⟨[], [], [], false⟩

/-- Add a character to the field. -/
def push (s : DelimitedState) (c : Char) : DelimitedState :=
  { s with field := c :: s.field, started := true }

/-- The fields with the current one, in reverse. -/
private def fields (s : DelimitedState) : List String := String.ofList s.field.reverse :: s.record

/-- End the field. -/
def endField (s : DelimitedState) : DelimitedState :=
  { s with field := [], record := s.fields, started := true }

/-- End the record, if anything of one has been read. -/
def endRecord (s : DelimitedState) : DelimitedState :=
  if s.started then ⟨[], [], s.fields.reverse :: s.records, false⟩ else s

end DelimitedState

/-- Read on inside or outside of quotes. -/
def readDelimited (sep : Char) : (quoted : Bool) → DelimitedState → List Char →
    Option (List (List String))
  | true, _, [] => none
  | true, s, '"' :: '"' :: rest => readDelimited sep true (s.push '"') rest
  | true, s, c :: rest =>
    if c = '"' then readDelimited sep false s rest else readDelimited sep true (s.push c) rest
  | false, s, [] => some s.endRecord.records.reverse
  | false, s, c :: rest =>
    if c = '"' ∧ s.field = [] then readDelimited sep true { s with started := true } rest
    else if c = '\r' then readDelimited sep false s rest
    else if c = '\n' then readDelimited sep false s.endRecord rest
    else if c = sep then readDelimited sep false s.endField rest
    else readDelimited sep false (s.push c) rest

/-- The mark that may stand at the beginning of a text file. -/
def byteOrderMark : Char := '\ufeff'

/-- The records of a delimited text. -/
def parseDelimited? (sep : Char) (text : String) : Option (List (List String)) :=
  readDelimited sep false .empty (text.toList.dropWhile (· = byteOrderMark))

end NoteShell
