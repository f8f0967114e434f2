import NoteShell.Chat.Message
import NoteShell.Host.Files

/-!
# The host

What the program writes is read back record by record. A message may hold several lines: the first
starts a record and every further line is marked as its continuation. A payload is written as it is.

The host is the world around the language as far as commands can change it: the text written so far,
the files, the key set for the chat provider and the requests that were sent to it. A crash ends the
program that runs the session, after which nothing more happens.
-/

namespace NoteShell

/-- The mark at the start of a line that continues a message. -/
def continuationMark : String := " >> "

/-- What a character of a message becomes: carriage returns are dropped, and a line end is followed
by the continuation mark. -/
def frameChar (c : Char) : List Char :=
  if c = '\r' then []
  else if c = '\n' then '\n' :: continuationMark.toList
  else [c]

/-- A message as it is written, without the line end after it. -/
def frame (message : String) : String :=
  String.ofList (message.toList.flatMap frameChar)

/-- The text written for a payload. -/
def emitted (payload : String) : String := payload ++ "\n"

/-- The text written for a message. -/
def logged (message : String) : String := emitted (frame message)

/-- A request to the chat provider. -/
structure ChatRequest where
  model : String
  key : String
  messages : List Chat.Message

/-- The world that commands act on. -/
structure Host where
  /-- Everything written so far. -/
  output : String
  files : Files
  /-- The key that a command has set for the chat provider. -/
  chatKey : Option String
  /-- The requests sent so far, first one first. -/
  requests : List ChatRequest
  /-- The paths at which tables have been looked for, the latest one first. -/
  tablePaths : List String
  /-- Whether the program has crashed. -/
  crashed : Bool

namespace Host

/-- A host with the given files on which nothing has happened. -/
def ofFiles (files : Files) : Host :=
  { output := "", files := files, chatKey := none, requests := [], tablePaths := [], crashed := false }

/-- Write a message. -/
def log (host : Host) (message : String) : Host :=
  { host with output := host.output ++ logged message }

/-- Write a payload. -/
def emit (host : Host) (payload : String) : Host :=
  { host with output := host.output ++ emitted payload }

/-- End the program. -/
def crash (host : Host) : Host := { host with crashed := true }

/-- Keep in mind that a table was looked for at a path. -/
def lookForTable (host : Host) (path : String) : Host :=
  { host with tablePaths := path :: host.tablePaths }

end Host

end NoteShell
