/-!
# Settings of the chat skills

Everything about the chat skills that a user can set, with the values that stand where nothing is
set.
-/

namespace NoteShell.Chat

/-- The model that is asked unless another one is chosen. -/
def defaultModel : String := "gpt-5.2"

/-- The number of seconds that a request may take unless another one is set. -/
def defaultTimeout : Nat := 120

/-- The settings of the chat skills. -/
structure Settings where
  apiKey : Option String
  /-- The address that requests are sent to. -/
  baseUrl : Option String
  model : String
  /-- The directory of the histories. -/
  memoryDir : Option String
  /-- The directory of the notes on conversations. -/
  contextDir : Option String
  proxy : Option String
  /-- The number of seconds that a request may take. -/
  timeout : Nat

/-- The settings where nothing is set. -/
def Settings.default : Settings where
  apiKey := none
  baseUrl := none
  model := defaultModel
  memoryDir := none
  contextDir := none
  proxy := none
  timeout := defaultTimeout

end NoteShell.Chat
