import NoteShell.Host.Basic
import NoteShell.Skill.Registry

/-!
# The overview of a shell

What the shell says about itself: its version, and the names that commands can use.
-/

namespace NoteShell.Script

/-- The version of the shell. -/
def versionText : String := "Interactivity runner 0.1.0 (rustc edition 2021)"

/-- The names that commands can use, the skills between the names of the shell itself. -/
def availableObjects (registry : Registry) : List String :=
  ["info", "available"] ++ registry.names ++
    ["frontmatter", "context", "note_path", "get_frontmatter"]

/-- The message that lists the names that commands can use, each on a line of its own. -/
def objectListing (registry : Registry) : String :=
  (availableObjects registry).foldl (fun text name => text ++ "\n" ++ name) "Available objects:"

/-- Write the overview. -/
def writeOverview (registry : Registry) (host : Host) : Host :=
  (host.log versionText).log (objectListing registry)

end NoteShell.Script
