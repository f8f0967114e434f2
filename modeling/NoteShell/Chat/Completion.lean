import NoteShell.Chat.Conversation
import NoteShell.Chat.ProviderConfig
import NoteShell.Json.Printer
import NoteShell.Json.Written
import NoteShell.Text.Case
import NoteShell.Text.Search

/-!
# Chat completions

The provider that is asked over HTTP: it is sent a document with the model and the messages, and
what it answers is a document with any number of choices, of which the first is the reply.

## Main definitions

* `Chat.HttpRequest`, `Chat.HttpReply`: what is sent and what comes back.
* `Chat.ProviderConfig.request`: the request for some messages.
* `Chat.completionOf`: what an answer stands for.
* `Chat.completionProvider`: the provider made of both.
-/

namespace NoteShell.Chat

open NoteShell.Text

/-- A request over HTTP. -/
structure HttpRequest where
  url : String
  headers : List (String × String)
  body : String
  proxy : Option String
  /-- The number of seconds that the request may take. -/
  timeout : Nat

/-- What is answered to a request over HTTP. -/
structure HttpReply where
  status : Nat
  body : Bytes

/-- The reply to some messages. -/
structure Completion where
  content : Option String
  model : String
  /-- The number of tokens of the request. -/
  inputTokens : Nat
  /-- The number of tokens of the reply. -/
  outputTokens : Nat

/-- The name of the provider in messages. -/
def providerName : String := "openai"

/-- Where requests are sent to unless another address is set. -/
def completionUrl : String := "https://api.openai.com/v1/chat/completions"

/-- Whether a model can be given a temperature: reasoning models cannot. -/
def takesTemperature (model : String) : Bool :=
  let model := lower model
  !(startsWith "o1" model || startsWith "o3" model || startsWith "gpt-5" model)

namespace ProviderConfig

/-- The document that is sent to a model. -/
def requestBody (config : ProviderConfig) (model : String) (messages : List Message) : Json :=
  let limit := match config.maxTokens with
    | some n => [("max_completion_tokens", Json.int n)]
    | none => []
  let temperature := match config.temperature with
    | some x => if takesTemperature model then [("temperature", Json.float x)] else []
    | none => []
  .object ([("model", .str model), ("messages", .arr (messages.map fun m => .object m.members))] ++
    limit ++ temperature)

/-- The request for some messages, with another model or another key than the configured ones where
they are given. -/
def request (config : ProviderConfig) (model key : Option String) (messages : List Message) :
    Except ProviderError HttpRequest :=
  match (key.or config.apiKey).filter fun key => !key.isEmpty with
  | none => .error (.missingKey providerName)
  | some key =>
    .ok {
      url := config.baseUrl.getD completionUrl
      headers := [("Authorization", "Bearer " ++ key), ("Content-Type", "application/json")]
      body := (config.requestBody (model.getD config.model) messages).compact
      proxy := config.proxy
      timeout := config.timeout }

end ProviderConfig

/-- The value of a field that may be missing. -/
private def fieldOr {α : Type} (name : String) (default : α) (read : List Char → Option α)
    (fields : List (String × List Char)) : Option α :=
  match fields.find? fun e => e.1 == name with
  | some (_, written) => read written
  | none => some default

private def textWritten? (cs : List Char) : Option String :=
  (Json.parse? (String.ofList cs)).bind Json.asText?

/-- A text or null. -/
private def contentWritten? (cs : List Char) : Option (Option String) :=
  match Json.parse? (String.ofList cs) with
  | some .null => some none
  | some (.str s) => some (some s)
  | _ => none

/-- A count of at most 32 bits. -/
private def countWritten? (cs : List Char) : Option Nat :=
  match Json.parse? (String.ofList cs) with
  | some (.int i) => if 0 ≤ i ∧ i < 4294967296 then some i.toNat else none
  | _ => none

/-- The counts of tokens that a text holds. -/
private def usageWritten? (cs : List Char) : Option (Nat × Nat) := do
  let fields ← Json.fieldsWritten? ["prompt_tokens", "completion_tokens"] 0 cs
  let input ← fieldOr "prompt_tokens" 0 countWritten? fields
  let output ← fieldOr "completion_tokens" 0 countWritten? fields
  return (input, output)

/-- The counts of tokens, which may be null. -/
private def optionalUsageWritten? (cs : List Char) : Option (Nat × Nat) :=
  match Json.parse? (String.ofList cs) with
  | some .null => some (0, 0)
  | _ => usageWritten? cs

/-- The content of the message of a choice. -/
private def messageWritten? (cs : List Char) : Option (Option String) := do
  let fields ← Json.fieldsWritten? ["content"] 1 cs
  fieldOr "content" none contentWritten? fields

/-- The content of a choice, which must have a message. -/
private def choiceWritten? (cs : List Char) : Option (Option String) := do
  match ← Json.fieldsWritten? ["message"] 1 cs with
  | [(_, message)] => messageWritten? message
  | _ => none

/-- The contents of all choices. -/
private def choicesWritten? (cs : List Char) : Option (List (Option String)) := do
  (← Json.itemsWritten? cs).mapM choiceWritten?

/-- The reply that the document in a text stands for. -/
def completionWritten? (cs : List Char) : Option Completion := do
  let fields ← Json.fieldsWritten? ["model", "choices", "usage"] 3 cs
  let model ← fieldOr "model" "" textWritten? fields
  let choices ← fieldOr "choices" [] choicesWritten? fields
  let (inputTokens, outputTokens) ← fieldOr "usage" (0, 0) optionalUsageWritten? fields
  return { content := choices.head?.join, model, inputTokens, outputTokens }

/-- The reply that an answer over HTTP stands for. -/
def completionOf (reply : HttpReply) : Except ProviderError Completion :=
  let text := decodeLossy reply.body
  if reply.status ≠ 200 then .error (.ofStatus reply.status text providerName)
  else
    match completionWritten? text.toList with
    | some completion => .ok completion
    | none => .error (.parseError "Failed to parse response")

/-- What carries requests over HTTP: an answer, or the reason why there is none. -/
abbrev Transport := HttpRequest → Except String HttpReply

/-- Ask for the reply to some messages. -/
def complete (transport : Transport) (request : HttpRequest) : Except ProviderError Completion :=
  match transport request with
  | .ok reply => completionOf reply
  | .error reason => .error (.networkError reason)

/-- The provider that is asked over HTTP. -/
def completionProvider (config : ProviderConfig) (transport : Transport) : Provider :=
  fun _ request => do
    let request ← config.request request.model request.key request.messages
    let completion ← complete transport request
    return completion.content

end NoteShell.Chat
