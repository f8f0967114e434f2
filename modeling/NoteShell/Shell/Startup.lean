import NoteShell.Chart.Skills
import NoteShell.Chat.Completion
import NoteShell.Chat.SettingsFile
import NoteShell.Chat.Skills
import NoteShell.Script.Kind
import NoteShell.Shell.Session
import NoteShell.Table.Skills

/-!
# Starting a session

A session starts with the skills that the settings of its user allow and shows its overview first.
The settings lie in the user's directory for settings, and histories in the one for data unless the
settings say otherwise.

## Main definitions

* `skillModules`: the skills under some settings.
* `Session.start`: a session that has shown its overview.
-/

namespace NoteShell

open NoteShell.Chat NoteShell.Text

/-- The number of rounds that a loop may make: more than there is time for. -/
def ampleRounds : Nat := 1 <<< 60

/-- The directory of a user that a variable of the environment names by an absolute path. Otherwise
it lies below the home directory. -/
def userDirectory (environment : String → Option String) (name below : String) : Option String :=
  match (environment name).filter (startsWith "/") with
  | some dir => some dir
  | none =>
    ((environment "HOME").filter fun home => !home.isEmpty).map fun home => joinPath home below

/-- The directory of this program within another. -/
def programDirectory (dir : String) : String := joinPath dir "interactivity"

/-- The path of the settings in the user's directory for settings. -/
def settingsPath (configDir : String) : String :=
  joinPath (programDirectory configDir) "skills.toml"

/-- The directory of the histories in the user's directory for data. -/
def defaultMemoryDir (dataDir : String) : String := joinPath (programDirectory dataDir) "chat"

/-- The chat skills under some settings, which may not allow any requests. -/
def chatModuleOf (settings : Settings) (dataDir : String) (transport : Transport) : SkillModule :=
  let config := ProviderConfig.ofSettings settings
  match config.check with
  | .ok () =>
    chatModule
      { provider := completionProvider config transport
        settings := settings
        memoryDir := settings.memoryDir.getD (defaultMemoryDir dataDir) }
  | .error e =>
    .unavailable "chat" chatSkillNames ("Error: chat client unavailable: " ++ e.message)

/-- All skills under some settings, in order of registration. -/
def skillModules (settings : Settings) (dataDir : String) (transport : Transport)
    (address : Picture → String) : List SkillModule :=
  [chatModuleOf settings dataDir transport, plotModule address, tableModule]

/-- The registry with the skills of some modules, in order. -/
def Registry.ofModules (modules : List SkillModule) : Registry :=
  modules.foldl (fun r m => (r.registerModule m).2) (.empty Script.coreNames)

/-- A shell with the skills of some modules. -/
def Shell.ofModules (modules : List SkillModule) : Shell :=
  .ofRegistry (.ofModules modules) ampleRounds

/-- A session with the skills of some modules that has shown its overview. -/
def Session.start (modules : List SkillModule) (files : Files) : Session :=
  (Session.ofShell (.ofModules modules) (.ofFiles files)).writeOverview

end NoteShell
