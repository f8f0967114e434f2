import NoteShell.Chat.History
import NoteShell.Chat.ProviderError
import NoteShell.Chat.Settings
import NoteShell.Host.Basic

/-!
# Conversations

A prompt is sent to the provider together with the history of its conversation. Where the provider
finds this too large, the oldest exchange is dropped from the history for good and the prompt is
sent again, as long as there is something to drop. The reply and the prompt become part of the
history.

## Main definitions

* `Chat.Service`: a provider with the settings under which it is used.
* `Chat.shorterHistories`: the histories that are left as one exchange after another is dropped.
* `Chat.Service.sendUntilFit`: the requests for one prompt.
* `Chat.Service.chat`: a whole turn of a conversation.
-/

namespace NoteShell.Chat

/-- What answers requests. An answer may depend on the requests before it, and a reply may come
without content. -/
abbrev Provider := List ChatRequest → ChatRequest → Except ProviderError (Option String)

/-- A provider, the settings under which it is used, and the directory of the histories. -/
structure Service where
  provider : Provider
  settings : Settings
  memoryDir : String

/-- What a user asks for. -/
structure Prompt where
  text : String
  system : Option String
  /-- Whether the history is sent along and continued. -/
  keepsHistory : Bool
  model : String

/-- The histories that are left as the oldest exchange is dropped again and again. -/
def shorterHistories : List Message → List (List Message)
  | [] => []
  | [_] => [[]]
  | _ :: _ :: rest => rest :: shorterHistories rest

/-- The message that carries a note on the conversation with the given context id. -/
def noteMessage (id note : String) : Message :=
  ⟨.system, "Long-term context for this conversation (topic: '" ++ id ++ "'):\n" ++ note⟩

/-- The message with the instructions of a prompt, unless they are empty. -/
def systemMessages (prompt : Prompt) : List Message :=
  match prompt.system with
  | none | some "" => []
  | some text => [⟨.system, text⟩]

namespace Service

/-- The key for requests: the one that a command has set, or else the one of the settings. An empty
key is none. -/
def key? (service : Service) (host : Host) : Option String :=
  (host.chatKey.or service.settings.apiKey).filter fun key => !key.isEmpty

/-- The message with the note on a conversation, where there is one. -/
def noteMessages (service : Service) (files : Files) (id : Option String) : List Message :=
  match id, service.settings.contextDir with
  | some id, some dir =>
    match conversationNote? files dir id with
    | some note => [noteMessage id note]
    | none => []
  | _, _ => []

/-- Save the history for a context id. -/
def save (service : Service) (id : Option String) (history : List Message) (host : Host) : Host :=
  { host with files := saveHistory host.files service.memoryDir id history }

/-- Send a request and keep a record of it. -/
def send (service : Service) (request : ChatRequest) (host : Host) :
    Except ProviderError (Option String) × Host :=
  (service.provider host.requests request, { host with requests := host.requests ++ [request] })

/-- Send a prompt with a history, and with ever `shorter` ones as long as it is refused as too
large. The result is the reply and the history with which it came. -/
def sendUntilFit (service : Service) (request : List Message → ChatRequest) (id : Option String)
    (history : List Message) (shorter : List (List Message)) (host : Host) :
    Except ProviderError (String × List Message) × Host :=
  match service.send (request history) host with
  | (.ok reply, host) => (.ok (reply.getD "", history), host)
  | (.error e, host) =>
    match shorter with
    | [] => (.error e, host)
    | next :: shorter =>
      if e.isTooLarge then
        service.sendUntilFit request id next shorter (service.save id next host)
      else (.error e, host)

/-- Take one turn of a conversation with the given key: the result is the reply. -/
def converse (service : Service) (key : String) (prompt : Prompt) (host : Host) :
    Except ProviderError String × Host :=
  let id := contextId? prompt.text
  let lead := systemMessages prompt ++ service.noteMessages host.files id
  let request := fun history =>
    ⟨prompt.model, key, lead ++ history ++ [⟨.user, prompt.text⟩]⟩
  if prompt.keepsHistory then
    let history := loadHistory host.files service.memoryDir id
    match service.sendUntilFit request id history (shorterHistories history) host with
    | (.ok (reply, history), host) =>
      (.ok reply,
        service.save id (history ++ [⟨.user, prompt.text⟩, ⟨.assistant, reply⟩]) host)
    | (.error e, host) => (.error e, host)
  else
    match service.sendUntilFit request id [] [] host with
    | (.ok (reply, _), host) => (.ok reply, host)
    | (.error e, host) => (.error e, host)

end Service

end NoteShell.Chat
