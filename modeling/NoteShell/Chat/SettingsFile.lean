import NoteShell.Chat.Settings
import NoteShell.Host.Files
import NoteShell.Text.Trim
import NoteShell.Toml.Document

/-!
# Settings in a file and in the environment

The settings of the chat skills stand in the table `chat` of a TOML document; each may be missing.
Some of them can also be set in the environment, which goes before the document.
-/

namespace NoteShell.Chat

/-- Why settings cannot be read. -/
inductive SettingsError where
  /-- The text is no document, or a setting has a wrong type. -/
  | invalid
  | unreadable (fault : FileFault)
deriving DecidableEq

/-- Names of settings in a document, in order. -/
private def settingNames : List String :=
  ["api_key", "base_url", "model", "memory_dir", "context_dir", "proxy", "timeout_secs"]

/-- A text that may be missing. -/
private def optionalText? : Option Toml → Option (Option String)
  | none => some none
  | some (.text s) => some (some s)
  | some _ => none

private def text? : Toml → Option String
  | .text s => some s
  | _ => none

private def natural? : Toml → Option Nat
  | .int i => if 0 ≤ i then some i.toNat else none
  | _ => none

/-- The settings among some named values. -/
private def settingsOf? (fields : Toml.Entries) : Option Settings := do
  let get := fun name => fields.get? name
  let apiKey ← optionalText? (get "api_key")
  let baseUrl ← optionalText? (get "base_url")
  let model ← text? ((get "model").getD (.text defaultModel))
  let memoryDir ← optionalText? (get "memory_dir")
  let contextDir ← optionalText? (get "context_dir")
  let proxy ← optionalText? (get "proxy")
  let timeout ← natural? ((get "timeout_secs").getD (.int defaultTimeout))
  return { apiKey, baseUrl, model, memoryDir, contextDir, proxy, timeout }

/-- The settings that a value holds: a table by name, an array in order. A date holds none. -/
def Settings.ofToml? : Toml → Option Settings
  | .table _ entries => settingsOf? entries
  | .array _ items => settingsOf? (settingNames.zip items)
  | .moment _ => some .default
  | _ => none

/-- The settings in the text of a document. -/
def Settings.ofText (text : String) : Except SettingsError Settings :=
  match Toml.parse? text with
  | none => .error .invalid
  | some entries =>
    match entries.get? "chat" with
    | none => .ok .default
    | some chat =>
      match Settings.ofToml? chat with
      | some settings => .ok settings
      | none => .error .invalid

/-- The settings in a file. -/
def Settings.ofFile (files : Files) (path : String) : Except SettingsError Settings :=
  match files.readText path with
  | .ok text => Settings.ofText text
  | .error fault => .error (.unreadable fault)

/-- The value of a variable of the environment, unless it is blank. -/
private def environmentValue? (environment : String → Option String) (name : String) : Option String :=
  (environment name).filter fun value => !(Text.trim value).isEmpty

/-- The settings with those of the environment in place. -/
def Settings.withEnvironment (settings : Settings) (environment : String → Option String) :
    Settings :=
  let get := environmentValue? environment
  { settings with
    apiKey := (get "OPENAI_API_KEY").or settings.apiKey
    baseUrl := (get "OPENAI_BASE_URL").or settings.baseUrl
    model := (get "INTERACTIVITY_CHAT_MODEL").getD settings.model
    memoryDir := (get "INTERACTIVITY_MEMORY_DIR").or settings.memoryDir
    contextDir := (get "INTERACTIVITY_CONTEXT_DIR").or settings.contextDir }

/-- The settings of a user: those of the file at a path, where there is one, and of the environment.
A file that cannot be read or is wrong in any way makes all settings the default ones. -/
def Settings.load (files : Files) (path : String) (environment : String → Option String) :
    Settings :=
  match Settings.ofFile files path with
  | .ok settings => settings.withEnvironment environment
  | .error (.unreadable fault) =>
    if fault.isAbsence then Settings.default.withEnvironment environment else .default
  | .error .invalid => .default

end NoteShell.Chat
