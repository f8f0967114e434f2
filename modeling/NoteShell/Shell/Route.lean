import NoteShell.Host.NoteContext
import NoteShell.Json.Parser
import NoteShell.Text.Search
import NoteShell.Text.Trim

/-!
# Routing

A line from the host is either plain text, which is the command, or an envelope: a JSON object that
carries a command together with a new shared context. Fields of an envelope that are missing or of
the wrong type count as empty.
-/

namespace NoteShell

open NoteShell.Text

/-- A message from the host. -/
structure Envelope where
  note : NoteContext
  command : String

namespace Envelope

/-- The members of a field that is an object. -/
def objectField (key : String) (fields : Json.Members) : Json.Members :=
  ((Json.find? key fields).bind Json.asMembers?).getD []

/-- The envelope with the given fields. -/
def ofMembers (fields : Json.Members) : Envelope :=
  { note := ⟨objectField "frontmatter" fields, objectField "context" fields⟩
    command := ((Json.find? "command" fields).bind Json.asText?).getD "" }

/-- The envelope that a text is, if it is a JSON object. -/
def parse? (line : String) : Option Envelope :=
  ((Json.parse? line).bind Json.asMembers?).map ofMembers

end Envelope

/-- The command in a line, and the shared context after it. -/
def route (line : String) (note : NoteContext) : String × NoteContext :=
  let line := trim line
  if startsWith "\x7b" line then
    match Envelope.parse? line with
    | some envelope => (envelope.command, envelope.note)
    | none => (line, note)
  else (line, note)

/-- The mark that the host may leave around a command. -/
def commandMark : String := "%%%"

/-- A text without a mark at its start. -/
def dropMarkStart (s : String) : String :=
  if startsWith commandMark s then String.ofList (s.toList.drop commandMark.length) else s

/-- A text without a mark at its end. -/
def dropMarkEnd (s : String) : String :=
  if endsWith commandMark s then String.ofList (s.toList.take (s.length - commandMark.length)) else s

/-- A command without marks and blank space around it, if anything is left. -/
def normalizeCommand (command : String) : Option String :=
  let command := trim (dropMarkEnd (dropMarkStart (trim command)))
  if command.isEmpty then none else some command

end NoteShell
