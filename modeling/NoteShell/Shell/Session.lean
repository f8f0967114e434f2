import NoteShell.Script.Overview
import NoteShell.Shell.Command
import NoteShell.Shell.Route
import NoteShell.Text.Utf8

/-!
# Sessions

A session reads its input line by line. Each line is routed and its command run before the next line
is looked at. A line that is no valid text is reported and otherwise ignored. After a crash no line
is read any more.
-/

namespace NoteShell

open NoteShell.Text

/-- A running shell, the context that the host has shared with it, and the host. -/
structure Session where
  shell : Shell
  note : NoteContext
  host : Host

namespace Session

/-- A session that has read nothing yet. -/
def ofShell (shell : Shell) (host : Host) : Session := ⟨shell, .empty, host⟩

/-- Write the overview of the shell. -/
def writeOverview (session : Session) : Session :=
  { session with host := Script.writeOverview session.shell.registry session.host }

/-- Run a command, unless it is blank. -/
def runCommand (command : String) : Session → Session
  | ⟨shell, note, host⟩ =>
    match normalizeCommand command with
    | none => ⟨shell, note, host⟩
    | some command =>
      let (shell, host) := shell.execute note command host
      ⟨shell, note, host⟩

/-- Route a line and run its command. -/
def handleText (line : String) : Session → Session
  | ⟨shell, note, host⟩ =>
    let (command, note) := route line note
    runCommand command ⟨shell, note, host⟩

/-- The message that reports a line which is no valid text. -/
def invalidLineText (fault : Utf8Fault) : String :=
  "Loop error: Invalid input: input is not valid UTF-8 (" ++ fault.message ++ ")"

/-- Handle a line as it is read. -/
def handleLine (session : Session) (line : Bytes) : Session :=
  match decodeUtf8 line with
  | .ok line => handleText line session
  | .error fault => { session with host := session.host.log (invalidLineText fault) }

/-- Whether the program has crashed. -/
def crashed (session : Session) : Bool := session.host.crashed

/-- Handle lines in order, up to a crash. -/
def handleLines (session : Session) : List Bytes → Session
  | [] => session
  | line :: rest => if session.crashed then session else (session.handleLine line).handleLines rest

/-- The lines of some input, each with its line end, after the bytes `line` in reverse. -/
def splitLines : (line : Bytes) → Bytes → List Bytes
  | line, [] => if line.isEmpty then [] else [line.reverse]
  | line, b :: rest =>
    if b = 10 then (b :: line).reverse :: splitLines [] rest else splitLines (b :: line) rest

/-- The lines of some input, each with its line end. -/
def inputLines (input : Bytes) : List Bytes := splitLines [] input

/-- Read input up to its end, or up to a crash. -/
def run (session : Session) (input : Bytes) : Session := session.handleLines (inputLines input)

/-- Read input up to its end, or nothing of it where the session was told to stop before. -/
def runUnless (stopped : Bool) (session : Session) (input : Bytes) : Session :=
  if stopped then session else session.run input

end Session

end NoteShell
