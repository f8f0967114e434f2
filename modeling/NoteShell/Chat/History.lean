import NoteShell.Chat.ContextId
import NoteShell.Chat.Message
import NoteShell.Host.Files
import NoteShell.Json.Parser
import NoteShell.Json.Printer

/-!
# Histories

The history of a conversation is kept in a file of a common directory, under a name made from its
context id. Prompts without a context id share one history. What cannot be read as a history counts
as an empty one.

Beside it, another directory may hold a note on a conversation that is sent along with every
request.
-/

namespace NoteShell.Chat

open NoteShell.Text

/-- How the names of all history files begin. -/
def historyStart : String := "chat_memory_"

/-- How the names of all history files end. -/
def historyEnd : String := ".json"

/-- The name of the history file for a context id. -/
def historyName : Option String → String
  | some id => historyStart ++ safeContextId id ++ historyEnd
  | none => historyStart ++ "global" ++ historyEnd

/-- Whether a name is that of a history file. -/
def isHistoryName (name : String) : Bool :=
  startsWith historyStart name && endsWith historyEnd name

/-- The path of the history file for a context id. -/
def historyPath (dir : String) (id : Option String) : String := joinPath dir (historyName id)

/-- The messages in a document: the items of an array that are messages. -/
def messagesOfJson : Json → List Message
  | .arr items => items.filterMap Message.ofJson?
  | _ => []

/-- The messages that the text of a history file holds. -/
def messagesOfText (text : String) : List Message :=
  match Json.parse? text with
  | some document => messagesOfJson document
  | none => []

/-- The text of a history file with the given messages. -/
def textOfMessages (messages : List Message) : String :=
  (Json.arr (messages.map Message.toJson)).indented

/-- The history for a context id. -/
def loadHistory (files : Files) (dir : String) (id : Option String) : List Message :=
  match files.readText? (historyPath dir id) with
  | some text => messagesOfText text
  | none => []

/-- The files with a new history for a context id, unless it cannot be written. -/
def saveHistory (files : Files) (dir : String) (id : Option String) (messages : List Message) :
    Files :=
  (files.makeDirectories dir).write (historyPath dir id)
    (.bytes (encodeUtf8 (textOfMessages messages)))

/-- The places of all histories. -/
def historyPlaces (files : Files) (dir : String) : List Place :=
  ((files.inDirectory dir).filter fun e => isHistoryName e.1).map (·.2)

/-- The files without any history. -/
def clearHistories (files : Files) (dir : String) : Files :=
  files.removeAll (historyPlaces files dir)

/-- The number of characters at the end of a note on a conversation that are sent along. -/
def maxNoteChars : Nat := 8000

/-- The end of a text, of at most the given number of characters. -/
def lastChars (count : Nat) (text : String) : String :=
  String.ofList (text.toList.drop (text.length - count))

/-- The note on a conversation. -/
def conversationNote? (files : Files) (dir id : String) : Option String :=
  (files.readText? (joinPath dir (safeContextId id ++ "-context.md"))).map (lastChars maxNoteChars)

end NoteShell.Chat
