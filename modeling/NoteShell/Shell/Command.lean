import NoteShell.Grammar.Program
import NoteShell.Script.Eval
import NoteShell.Script.State

/-!
# The shell and its commands

A shell keeps what its commands have bound, and the values behind it, from one command to the next.

A command that is an expression shows its value, unless that is none. Any other command is a
program, which shows only what it prints. An error is shown as a message of its own. A crash ends
the program that runs the shell, without a message.
-/

namespace NoteShell

open NoteShell.Grammar NoteShell.Script

/-- A shell with everything that its commands have left behind. -/
structure Shell where
  registry : Registry
  /-- The number of rounds that a loop with a test may make. -/
  rounds : Nat
  /-- How long lists are sorted. -/
  sorter : Sorter
  globals : Entries
  heap : Heap

/-- Why there is no result. -/
inductive Stop where
  | error (e : EvalError)
  /-- The action has not come to its end: a loop has used up its rounds, or there was a crash. -/
  | outOfRounds

/-- What is reported of an action that has stopped early. -/
def Script.Halt.stop : Halt → Stop
  | .error e => .error e
  | .outOfRounds => .outOfRounds
  | .crash => .outOfRounds

/-- The host after an action that has stopped early. -/
def Script.Halt.leave : Halt → Host → Host
  | .crash, host => host.crash
  | _, host => host

namespace Shell

/-- A shell in which no command has run. -/
def ofRegistry (registry : Registry) (rounds : Nat) : Shell :=
  ⟨registry, rounds, .merging, [], .empty⟩

/-- The value that a name is globally bound to. -/
def global? (shell : Shell) (name : String) : Option Value := Entries.get? name shell.globals

/-- Run an action outside of all calls. -/
def run {α : Type} (shell : Shell) (note : NoteContext) (host : Host) (action : Env → Run α) :
    Except Stop α × Shell × Host :=
  match shell with
  | ⟨registry, rounds, sorter, globals, heap⟩ =>
    match (action ⟨registry, note, rounds, sorter⟩).run ⟨globals, [], heap, host⟩ with
    | (.ok a, ⟨globals, _, heap, host⟩) =>
      (.ok a, ⟨registry, rounds, sorter, globals, heap⟩, host)
    | (.error halt, ⟨globals, _, heap, host⟩) =>
      (.error halt.stop, ⟨registry, rounds, sorter, globals, heap⟩, halt.leave host)

end Shell

/-- Evaluate an expression and show its value. -/
def showValue (env : Env) (e : Expr) : Run Unit := do
  let v ← evaluate env e
  if v.isNone then
    return ()
  let text ← Run.onWorld (Work.readHeap fun h => .ok (strValue h v))
  Run.onWorld (Work.log text)

/-- Run the program that a text holds. -/
def runText (env : Env) (source : String) : Run Unit :=
  match parseProgram source with
  | .ok stmts => runProgram env stmts
  | .error e => Run.fail (.source e)

/-- Run a command. -/
def runCommand (env : Env) (command : String) : Run Unit :=
  match parseExpression command with
  | .ok e => showValue env e
  | .error _ => runText env command

/-- The message that shows an error. -/
def errorText (e : EvalError) : String := "Error: " ++ e.message

namespace Shell

/-- Run a command and show the error with which it ends, if it does. -/
def execute (shell : Shell) (note : NoteContext) (command : String) (host : Host) : Shell × Host :=
  match shell.run note host (runCommand · command) with
  | (.error (.error e), shell, host) => (shell, host.log (errorText e))
  | (_, shell, host) => (shell, host)

end Shell

end NoteShell
