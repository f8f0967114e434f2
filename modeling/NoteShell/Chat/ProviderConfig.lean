import NoteShell.Chat.ProviderError
import NoteShell.Chat.Settings
import NoteShell.Json.Basic
import NoteShell.Text.CharClass

/-!
# Configuration of a provider

How requests to a provider are made: where to, with which key, for which model and within which
limits.
-/

namespace NoteShell.Chat

open NoteShell.Text

/-- The configuration of a provider. -/
structure ProviderConfig where
  apiKey : Option String
  /-- The address that requests are sent to. -/
  baseUrl : Option String
  model : String
  maxTokens : Option Nat
  /-- The temperature, which has the precision of a float of 32 bits. -/
  temperature : Option Float
  proxy : Option String
  /-- The number of seconds that a request may take. -/
  timeout : Nat

namespace ProviderConfig

/-- The configuration under which the chat skills use a provider. -/
def ofSettings (settings : Settings) : ProviderConfig where
  apiKey := settings.apiKey
  baseUrl := settings.baseUrl
  model := settings.model
  maxTokens := none
  temperature := none
  proxy := settings.proxy
  timeout := settings.timeout

/-- A text that may be missing or null. -/
private def optionalText? : Option Json → Option (Option String)
  | none | some .null => some none
  | some (.str s) => some (some s)
  | some _ => none

/-- A natural number of at most the given number of bits. -/
private def natural? (bits : Nat) : Json → Option Nat
  | .int i => if 0 ≤ i ∧ i.toNat < 1 <<< bits then some i.toNat else none
  | _ => none

/-- A count of tokens that may be missing or null. -/
private def tokenLimit? : Option Json → Option (Option Nat)
  | none | some .null => some none
  | some j => (natural? 32 j).map some

/-- An integer of at most 64 bits, in the precision of 32 bits. -/
private def roundInt (i : Int) : Float :=
  let x := i.natAbs.toUInt64.toFloat32.toFloat
  if i < 0 then -x else x

/-- A temperature that may be missing or null. -/
private def temperature? : Option Json → Option (Option Float)
  | none | some .null => some none
  | some (.int i) => some (some (roundInt i))
  | some (.float x) => some (some x.toFloat32.toFloat)
  | some _ => none

/-- The names of the fields of a configuration in a document. -/
private def fieldNames : List String :=
  ["api_key", "base_url", "model", "max_tokens", "temperature", "proxy", "timeout_secs"]

/-- The fields of a configuration in a document: an object, or an array with all fields in order, of
which the last may be missing. -/
private def fields? : Json → Option Json.Members
  | .obj members => some members
  | .arr items => if items.length = 6 ∨ items.length = 7 then some (fieldNames.zip items) else none
  | _ => none

/-- The configuration in a document. -/
def ofJson? (j : Json) : Option ProviderConfig := do
  let fields ← fields? j
  let get := fun name => Json.find? name fields
  let apiKey ← optionalText? (get "api_key")
  let baseUrl ← optionalText? (get "base_url")
  let model ← ((get "model").getD (.str defaultModel)).asText?
  let maxTokens ← tokenLimit? (get "max_tokens")
  let temperature ← temperature? (get "temperature")
  let proxy ← optionalText? (get "proxy")
  let timeout ← natural? 64 ((get "timeout_secs").getD (.int defaultTimeout))
  return { apiKey, baseUrl, model, maxTokens, temperature, proxy, timeout }

/-- Check that requests can be made at all: an address of a proxy has no blank space in it. -/
def check (config : ProviderConfig) : Except ProviderError Unit :=
  match config.proxy with
  | some proxy =>
    if proxy.toList.any isBlank then
      .error (.other ("Invalid proxy URL '" ++ proxy ++ "': builder error"))
    else .ok ()
  | none => .ok ()

end ProviderConfig

end NoteShell.Chat
