import NoteShell.Json.Basic

/-!
# The shared context of a note

What the host has told about the note from which commands come: its front matter, the surrounding
context, and the path of the note, which is a member of the context.
-/

namespace NoteShell

/-- The context that a note shares with its commands. -/
structure NoteContext where
  frontmatter : Json.Members
  context : Json.Members

namespace NoteContext

/-- The context before the host has told anything. -/
def empty : NoteContext := ⟨[], []⟩

/-- The path of the note, empty when it is not known. -/
def notePath (c : NoteContext) : String :=
  ((Json.find? "notePath" c.context).bind Json.asText?).getD ""

end NoteContext

end NoteShell
