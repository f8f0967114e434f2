import NoteShell.Json.Basic

/-!
# Messages

A conversation is a list of messages, each with the role of its writer. The JSON form of a message
is an object with the role and the content; an array of these two is read as well.
-/

namespace NoteShell.Chat

/-- Who wrote a message. -/
inductive Role where
  | system
  | user
  | assistant
deriving DecidableEq

/-- The name of a role. -/
def Role.name : Role → String
  | system => "system"
  | user => "user"
  | assistant => "assistant"

/-- The role with the given name. -/
def Role.ofName? (name : String) : Option Role :=
  [system, user, assistant].find? fun r => r.name == name

/-- A message of a conversation. -/
structure Message where
  role : Role
  content : String
deriving DecidableEq

/-- A role in JSON: its name, or an object with the name as its only key and null as the value. -/
def Role.ofJson? : Json → Option Role
  | .str name => Role.ofName? name
  | .obj [(name, .null)] => Role.ofName? name
  | _ => none

/-- A message in JSON. Other members of an object are ignored. -/
def Message.ofJson? : Json → Option Message
  | .obj members => do
    let role ← Role.ofJson? (← Json.find? "role" members)
    let content ← (← Json.find? "content" members).asText?
    some ⟨role, content⟩
  | .arr [role, .str content] => (Role.ofJson? role).map (⟨·, content⟩)
  | _ => none

/-- The role and the content, in this order. -/
def Message.members (m : Message) : List (String × Json) :=
  [("role", .str m.role.name), ("content", .str m.content)]

/-- The JSON form of a message as written to a file. -/
def Message.toJson (m : Message) : Json := .obj m.members

end NoteShell.Chat
