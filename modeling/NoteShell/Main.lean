import NoteShell.Chart.Png
import NoteShell.Shell.Startup

/-!
# The program

The program reads commands from its standard input and answers each line before it reads the next
one. What a line does is computed on a copy of the files that it needs: tables are read when a line
turns out to look for them, and histories of conversations are written back once it is done.
Requests to a chat provider are refused, since there is no connection to send them through.
-/

namespace NoteShell

open NoteShell.Text

/-- The variables of the environment that the program looks at. -/
def environmentNames : List String :=
  ["HOME", "XDG_CONFIG_HOME", "XDG_DATA_HOME", "OPENAI_API_KEY", "OPENAI_BASE_URL",
    "INTERACTIVITY_CHAT_MODEL", "INTERACTIVITY_MEMORY_DIR", "INTERACTIVITY_CONTEXT_DIR"]

/-- The environment of the program. -/
def readEnvironment : IO (String → Option String) := do
  let values ← environmentNames.mapM fun name => return (name, ← IO.getEnv name)
  return fun name => (values.find? fun e => e.1 == name).bind (·.2)

/-- The files with what is now at a path. -/
def loadFile (files : Files) (path : String) : IO Files := do
  try
    let content ← IO.FS.readBinFile path
    return files.add path (.bytes content.toList)
  catch _ => return files.removeAll (files.target? path).toList

/-- The files with those that are directly in a directory. -/
def loadDirectory (files : Files) (dir : String) : IO Files := do
  try
    let entries ← (← IO.FS.realPath dir).readDir
    entries.foldlM (fun files entry => loadFile files (joinPath dir entry.fileName)) files
  catch _ => return files

/-- Write a file and the directories that it lies in. Nothing happens where this is impossible. -/
def saveFile (path : String) (content : Bytes) : IO Unit := do
  try
    let dir := directoryPath path
    if !dir.isEmpty then
      IO.FS.createDirAll dir
    IO.FS.writeBinFile path content.toByteArray
  catch _ => return ()

/-- Remove a file. Nothing happens where this is impossible. -/
def dropFile (path : String) : IO Unit := do
  try IO.FS.removeFile path catch _ => return ()

/-- Whether there is a file with the given bytes at a place. -/
def holdsBytes (files : Files) (place : Place) (content : Bytes) : Bool :=
  match files.contentAt? place with
  | some (.bytes old) => old == content
  | _ => false

/-- Change what is on disk from the files before a line to those after it. -/
def saveChanges (before after : Files) : IO Unit := do
  for (place, content) in after.entries do
    match content with
    | .bytes content =>
      if !holdsBytes before place content then
        saveFile place.path content
    | .workbook _ => pure ()
  for (place, _) in before.entries do
    if (after.contentAt? place).isNone then
      dropFile place.path

/-- Handle a line with the files that it looks for. The result is the session as it was with these
files, and after the line. -/
partial def handleWithFiles (session : Session) (read : List String) (line : Bytes) :
    IO (Session × Session) := do
  let next := session.handleLine line
  let unread := (next.host.tablePaths.filter fun path => !read.contains path).eraseDups
  if unread.isEmpty then
    return (session, next)
  let files ← unread.foldlM loadFile session.host.files
  handleWithFiles { session with host := { session.host with files := files } } (unread ++ read) line

/-- Read a line with its end, after the bytes of it that have been read, which are in reverse. -/
partial def readLine (input : IO.FS.Stream) (line : Bytes) : IO Bytes := do
  match (← input.read 1).toList with
  | [b] => if b = 10 then return (b :: line).reverse else readLine input (b :: line)
  | _ => return line.reverse

/-- Write out what a session has to say. -/
def flushOutput (session : Session) : IO Session := do
  let output ← IO.getStdout
  output.putStr session.host.output
  output.flush
  return { session with host := { session.host with output := "", tablePaths := [] } }

/-- Handle line after line up to the end of the input or a crash. The result is the exit code. -/
partial def serve (input : IO.FS.Stream) (session : Session) : IO UInt32 := do
  if session.crashed then
    return 1
  let line ← readLine input []
  if line.isEmpty then
    return 0
  let (before, after) ← handleWithFiles session [] line
  saveChanges before.host.files after.host.files
  serve input (← flushOutput after)

/-- No request can be sent. -/
def offline : Chat.Transport := fun _ => .error "no connection"

/-- The settings of the user, and the directory for data. -/
def loadSettings : IO (Chat.Settings × String) := do
  let environment ← readEnvironment
  let dataDir := (userDirectory environment "XDG_DATA_HOME" ".local/share").getD "/tmp"
  match userDirectory environment "XDG_CONFIG_HOME" ".config" with
  | some configDir =>
    let path := settingsPath configDir
    return (Chat.Settings.load (← loadFile .empty path) path environment, dataDir)
  | none => return (Chat.Settings.default.withEnvironment environment, dataDir)

/-- The files that the chat skills may read or change. -/
def loadChatFiles (settings : Chat.Settings) (dataDir : String) : IO Files := do
  let files ← loadDirectory .empty (settings.memoryDir.getD (defaultMemoryDir dataDir))
  match settings.contextDir with
  | some dir => loadDirectory files dir
  | none => return files

end NoteShell

open NoteShell in
/-- Run a session on the standard input. -/
def main : IO UInt32 := do
  let (settings, dataDir) ← loadSettings
  let files ← loadChatFiles settings dataDir
  let modules := skillModules settings dataDir offline Picture.dataAddress
  serve (← IO.getStdin) (← flushOutput (.start modules files))
