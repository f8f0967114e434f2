import NoteShell.Proofs.Execution.Reach
import NoteShell.Shell.Command

/-!
# Commands

What a command does to a shell, and the points that it passes while it runs.

## Main definitions

* `Shell.after` : a shell and its host after several commands.
* `CommandReaches` : the points that a command passes.

## Main results

* `stable_runCommand` : what all steps keep holds along commands.
-/

namespace NoteShell

open NoteShell.Grammar NoteShell.Script

/-- The surroundings in which a shell runs a command. -/
def Shell.env (shell : Shell) (note : NoteContext) : Env :=
  ⟨shell.registry, note, shell.rounds, shell.sorter⟩

/-- The state in which a command begins. -/
def Shell.state (shell : Shell) (host : Host) : State := ⟨shell.globals, [], shell.heap, host⟩

/-- A shell and its host after commands, each of which was sent with a shared context of its own. -/
def Shell.after (shell : Shell) (host : Host) :
    (commands : List (NoteContext × String)) → Shell × Host
  | [] => (shell, host)
  | (note, command) :: rest =>
    let (shell, host) := shell.execute note command host
    shell.after host rest

/-- The points that a command passes. -/
def CommandReaches (env : Env) (command : String) (s : State) (p : RunPoint) : Prop :=
  match parseExpression command with
  | .ok e => Reaches env (maxCallDepth - s.frames.length) none (.eval (evalExpr env e) .done) s p
  | .error _ => ∃ stmts, parseProgram command = .ok stmts ∧
      Reaches env (maxCallDepth - s.frames.length) none (execBlock env stmts) s p

/-- A stable relation holds along a command. -/
theorem stable_runCommand {R : State → State → Prop} (h : Stable R) (env : Env) (command : String)
    (s : State) : R s (runCommand env command s).2 := by
  rw [runCommand]
  cases parseExpression command with
  | ok e =>
    refine h.bind (h.evaluate env e s) fun v t => ?_
    by_cases hv : v.isNone = true
    · simp only [if_pos hv]
      exact h.refl t
    · simp only [if_neg hv]
      exact h.bind (h.onWorld _ t) fun text u => h.onWorld _ u
  | error _ =>
    dsimp only
    rw [runText]
    cases parseProgram command with
    | ok stmts => exact h.runProgram env stmts s
    | error _ => exact h.refl s

/-- A command leaves behind the global names and the heap of the state in which it ends. -/
theorem execute_shell (shell : Shell) (note : NoteContext) (command : String) (host : Host) :
    (shell.execute note command host).1 =
      { shell with
        globals := (runCommand (shell.env note) command (shell.state host)).2.globals
        heap := (runCommand (shell.env note) command (shell.state host)).2.heap } := by
  obtain ⟨registry, rounds, sorter, globals, heap⟩ := shell
  rw [Shell.execute, Shell.run, ExceptT.run, Shell.env, Shell.state]
  rcases runCommand ⟨registry, note, rounds, sorter⟩ command ⟨globals, [], heap, host⟩
    with ⟨(e | _ | _) | _, _⟩ <;> rfl

end NoteShell
