import NoteShell.Chat.Conversation
import NoteShell.Skill.Registry
import NoteShell.Text.Trim

/-!
# Chat skills

The skills `chat`, `chat4` and `chat5` take a turn of a conversation and write the reply; they
differ in the model that is asked. `clean_chat` forgets all histories and `chat_key` sets the key
for further requests.
-/

namespace NoteShell.Chat

/-- The message for a request without a key. -/
def missingKeyText : String :=
  "Error: OpenAI API key not set. Call chat_key(\"sk-...\") or set OPENAI_API_KEY."

/-- The prompt that arguments make for the skill with the given name. A skill with a `pinned` model
takes no other one. -/
def promptOf (name : String) (pinned : Option String) (model : String) (args : SkillArgs) :
    Except SkillError Prompt := do
  let text ← args.requiredText 0 "prompt" name
  let system ← args.optionalText 1 "system"
  let keepsHistory ← args.boolOr 2 "save_context" true
  match pinned with
  | some model => return { text, system, keepsHistory, model }
  | none =>
    let chosen ← args.optionalText 3 "model"
    return { text, system, keepsHistory, model := chosen.getD model }

/-- Take a turn of a conversation and write the reply, with an empty line after it. -/
def Service.answer (service : Service) (prompt : Prompt) (host : Host) :
    Except SkillError Unit × Host :=
  match service.key? host with
  | none => (.ok (), host.log missingKeyText)
  | some key =>
    match service.converse key prompt host with
    | (.ok reply, host) => (.ok (), host.emit (reply ++ "\n"))
    | (.error e, host) => (.error (.failed e.message), host)

/-- The skill that takes a turn of a conversation. -/
def chatSkill (service : Service) (name : String) (pinned : Option String) : Skill where
  name := name
  action call host :=
    match promptOf name pinned service.settings.model call.args with
    | .error e => (.error e, host)
    | .ok prompt => service.answer prompt host

/-- The skill that forgets all histories. -/
def cleanChat (service : Service) : Skill where
  name := "clean_chat"
  action _ host := (.ok (), { host with files := clearHistories host.files service.memoryDir })

/-- The skill that sets the key for further requests. -/
def chatKey : Skill where
  name := "chat_key"
  action call host :=
    match call.args.requiredText 0 "key" "chat_key" with
    | .error e => (.error e, host)
    | .ok key => (.ok (), { host with chatKey := some (Text.trim key) })

/-- The chat skills. -/
def chatSkills (service : Service) : List Skill :=
  [chatSkill service "chat" none, chatSkill service "chat4" (some "gpt-4o"),
    chatSkill service "chat5" (some "gpt-5.2"), cleanChat service, chatKey]

/-- The names of the chat skills. -/
def chatSkillNames : List String := ["chat", "chat4", "chat5", "clean_chat", "chat_key"]

/-- The chat skills of a service. -/
def chatModule (service : Service) : SkillModule := .available "chat" (chatSkills service)

end NoteShell.Chat
