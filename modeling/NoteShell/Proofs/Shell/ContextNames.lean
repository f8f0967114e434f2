import NoteShell.Proofs.Execution.ContextNames
import NoteShell.Proofs.Shell.Commands

/-!
# The shared context in a sequence of commands

No command binds a name of the shared context globally, so that a later command always begins with
all of these names free. While a command runs they show the context with which it was sent, at every
point and inside all calls. There is one exception: the parameters of a function may be called like
a name of the shared context, and then they hide it.

## Main results

* `global?_after` : no sequence of commands binds a name of the shared context globally.
* `run_contextName` : the value of such a name at all points of all commands.
* `notePath_hidden` : a parameter that hides the path of the note.
-/

namespace NoteShell

open NoteShell.Grammar NoteShell.Script

/-! ### Global names -/

/-- A command binds no name of the shared context globally. -/
theorem global?_execute (shell : Shell) (note : NoteContext) (command : String) (host : Host)
    (c : ContextName) : (shell.execute note command host).1.global? c.name =
      shell.global? c.name := by
  have hstable := stable_runCommand contextBindings_stable (shell.env note) command
    (shell.state host)
  rw [Shell.global?, execute_shell]
  exact congrFun (Prod.mk.inj hstable).1 c

/-- No sequence of commands binds a name of the shared context globally. -/
theorem global?_after (shell : Shell) (host : Host) (commands : List (NoteContext × String))
    (c : ContextName) : (shell.after host commands).1.global? c.name = shell.global? c.name := by
  induction commands generalizing shell host with
  | nil => rfl
  | cons sent rest ih =>
    obtain ⟨note, command⟩ := sent
    rw [Shell.after, ih, global?_execute]

/-! ### A parameter that hides the path of the note -/

/-- A command that calls a function with a parameter called like the path of the note. -/
def hidingCommand : String := "def f(note_path):\n    print(note_path)\nf(\"x\")\n"

/-- The function in `hidingCommand`. -/
def hidingFunction : Function :=
  ⟨"f", [("note_path", none)], [.expr (.call (.name "print") [.name "note_path"] [])]⟩

/-- The statements of `hidingCommand`. -/
def hidingProgram : List Stmt :=
  [.define "f" [⟨"note_path", none⟩] hidingFunction.body, .expr (.call (.name "f") [.str "x"] [])]

/-- A context with a path. -/
def hidingNote : NoteContext := ⟨[], [("notePath", .str "a/b.md")]⟩

/-- The point of `hidingCommand` at which the call begins. -/
def hidingPoint (host : Host) : RunPoint :=
  ⟨199, some hidingFunction, none, ⟨[("f", .function ⟨0⟩)], [⟨[("note_path", .str "x")], []⟩],
    ⟨#[], #[], #[hidingFunction]⟩, host⟩⟩

/-- The names and texts of a program of the form of `hidingProgram`. -/
def hidingNames? : Except SourceError (List Stmt) → Option (List String)
  | .ok [.define f [⟨x, none⟩] [.expr (.call (.name g) [.name y] [])],
      .expr (.call (.name h) [.str text] [])] => some [f, x, g, y, h, text]
  | _ => none

theorem parseProgram_hidingCommand : parseProgram hidingCommand = .ok hidingProgram := by
  have hnames : hidingNames? (parseProgram hidingCommand) =
      some ["f", "note_path", "print", "note_path", "f", "x"] := by decide +kernel
  generalize parseProgram hidingCommand = result at hnames ⊢
  unfold hidingNames? at hnames
  split at hnames <;> cases hnames
  rfl

theorem hidingCommand_reaches (env : Env) (host : Host) :
    CommandReaches env hidingCommand ⟨[], [], .empty, host⟩ (hidingPoint host) := by
  rw [CommandReaches]
  cases hparse : parseExpression hidingCommand with
  | ok e =>
    have herror : (parseExpression hidingCommand).toOption.isNone = true := by decide +kernel
    rw [hparse] at herror
    cases herror
  | error _ =>
    refine ⟨hidingProgram, parseProgram_hidingCommand, ?_⟩
    exact .done (.work rfl (.done (.change rfl (.lookup rfl (.enter rfl (.here _ _))))))

/-! ### The names of the shared context -/

/-- The value of a name of the shared context at a point of a command, after any other commands. It
is the part of the context that the name stands for, as the command was sent with it, unless a
parameter of the innermost call has the same name; then it is the argument. -/
theorem run_contextName {registry : Registry} {rounds : Nat} {host₀ host : Host} {shell : Shell}
    {commands : List (NoteContext × String)}
    (hshell : (Shell.ofRegistry registry rounds).after host₀ commands = (shell, host))
    {note : NoteContext} {command : String} {p : RunPoint}
    (hp : CommandReaches (shell.env note) command (shell.state host) p) (c : ContextName)
    (call : Caller) :
    (¬ p.Shadows c → (evalExpr (shell.env note) (.name c.name)).run (shell.env note) call p.state =
      Run.onWorld (Work.perform (contextValue note c)) p.state) ∧
    (p.Shadows c → ∃ frame v, p.state.frameOf? c.name = some frame ∧
      Entries.get? c.name frame.locals = some v ∧
      (evalExpr (shell.env note) (.name c.name)).run (shell.env note) call p.state =
        (.ok v, p.state)) := by
  have hstart : BindsParameters none (shell.state host) := by
    refine ⟨fun c => ?_, rfl⟩
    have hglobal := global?_after (Shell.ofRegistry registry rounds) host₀ commands c
    rw [hshell] at hglobal
    exact hglobal
  rw [run_name]
  rw [CommandReaches] at hp
  cases hparse : parseExpression command with
  | ok e =>
    rw [hparse] at hp
    exact hp.lookup_contextName hstart c
  | error _ =>
    rw [hparse] at hp
    obtain ⟨stmts, -, hreaches⟩ := hp
    exact hreaches.lookup_contextName hstart c

/-- In the call of `hidingCommand` the front matter is free, and the path of the note is hidden. -/
theorem run_contextName_hidingCommand :
    let shell := Shell.ofRegistry (.empty coreNames) 1
    let env := shell.env hidingNote
    let s := (hidingPoint (.ofFiles .empty)).state
    (evalExpr env (.name "frontmatter")).run env (callFunction env 199) s =
      Run.onWorld (Work.perform (contextValue hidingNote .frontmatter)) s ∧
    ∃ frame v, s.frameOf? "note_path" = some frame ∧
      Entries.get? "note_path" frame.locals = some v ∧
      (evalExpr env (.name "note_path")).run env (callFunction env 199) s = (.ok v, s) := by
  have hshell : (Shell.ofRegistry (.empty coreNames) 1).after (.ofFiles .empty) [] =
      (Shell.ofRegistry (.empty coreNames) 1, .ofFiles .empty) := rfl
  have hp := hidingCommand_reaches
    ((Shell.ofRegistry (.empty coreNames) 1).env hidingNote) (.ofFiles .empty)
  refine ⟨(run_contextName hshell hp .frontmatter _).1 ?_,
    (run_contextName hshell hp .notePath _).2 ?_⟩
  · rintro ⟨⟨f, hf, hmem⟩, -⟩
    cases hf
    revert hmem
    decide
  · exact ⟨⟨_, rfl, by decide⟩, by decide⟩

/-- The path of the note is hidden by an argument, which is also what the command shows. -/
theorem notePath_hidden :
    let shell := Shell.ofRegistry (.empty coreNames) 1
    let env := shell.env hidingNote
    let host := Host.ofFiles .empty
    hidingNote.notePath = "a/b.md" ∧
    (∃ p, CommandReaches env hidingCommand (shell.state host) p ∧
      (evalExpr env (.name ContextName.notePath.name)).run env (callFunction env p.depth) p.state =
        (.ok (.str "x"), p.state)) ∧
    (shell.execute hidingNote hidingCommand host).2.output = logged "x" := by
  refine ⟨by decide +kernel, ⟨hidingPoint (.ofFiles .empty), ?_, rfl⟩, by decide +kernel⟩
  exact hidingCommand_reaches _ _

end NoteShell
