import NoteShell.Script.CallArgs
import NoteShell.Script.Names

/-!
# The steps of a program

What a syntax tree does is given step by step, each step with what comes after it. The evaluation of
an expression acts on the world, looks names up and calls functions of the program, and nothing
else. Only the execution of statements can change names, besides evaluating expressions. How a
function is called is given from outside when the steps are run.

## Main definitions

* `Evaluation` : the steps of an expression.
* `Execution` : the steps of statements.
* `Evaluation.run`, `Execution.run` : the steps as actions of a program.
-/

namespace NoteShell.Script

/-- How a function of the program is called. -/
abbrev Caller := FunctionRef → CallArgs → Run Value

variable {α β : Type}

/-- The steps of an expression. -/
inductive Evaluation (α : Type) : Type 1 where
  | done (a : α)
  | work {β : Type} (x : Work β) (next : β → Evaluation α)
  | lookup (name : String) (next : Value → Evaluation α)
  | call (f : FunctionRef) (args : CallArgs) (next : Value → Evaluation α)

namespace Evaluation

/-- The steps of an evaluation and then those that depend on its result. -/
def bind : Evaluation α → (α → Evaluation β) → Evaluation β
  | .done a, f => f a
  | .work x next, f => .work x fun b => (next b).bind f
  | .lookup name next, f => .lookup name fun v => (next v).bind f
  | .call r args next, f => .call r args fun v => (next v).bind f

instance : Monad Evaluation where
  pure := .done
  bind := bind

instance : MonadLift Work Evaluation := ⟨fun x => .work x .done⟩

/-- The steps as an action, up to the first one that fails. -/
def run (env : Env) (call : Caller) : Evaluation α → Run α
  | .done a, s => (.ok a, s)
  | .work x next, s =>
    match Run.onWorld x s with
    | (.ok b, s) => (next b).run env call s
    | (.error stop, s) => (.error stop, s)
  | .lookup name next, s =>
    match Script.lookup env name s with
    | (.ok v, s) => (next v).run env call s
    | (.error stop, s) => (.error stop, s)
  | .call r args next, s =>
    match call r args s with
    | (.ok v, s) => (next v).run env call s
    | (.error stop, s) => (.error stop, s)

end Evaluation

/-- The steps of statements. -/
inductive Execution (α : Type) : Type 1 where
  | done (a : α)
  | outOfRounds
  | eval {β : Type} (x : Evaluation β) (next : β → Execution α)
  | change (c : NameChange) (next : Execution α)

namespace Execution

/-- The steps of an execution and then those that depend on its result. -/
def bind : Execution α → (α → Execution β) → Execution β
  | .done a, f => f a
  | .outOfRounds, _ => .outOfRounds
  | .eval x next, f => .eval x fun b => (next b).bind f
  | .change c next, f => .change c (next.bind f)

instance : Monad Execution where
  pure := .done
  bind := bind

instance : MonadLift Evaluation Execution := ⟨fun x => .eval x .done⟩

/-- Bind a name. -/
def store (name : String) (v : Value) : Execution Unit := .change (.store name v) (.done ())

/-- Unbind a name. -/
def unbind (name : String) : Execution Unit := .change (.unbind name) (.done ())

/-- Declare names global. -/
def declareGlobal (names : List String) : Execution Unit :=
  .change (.declareGlobal names) (.done ())

/-- The steps as an action, up to the first one that fails. -/
def run (env : Env) (call : Caller) : Execution α → Run α
  | .done a, s => (.ok a, s)
  | .outOfRounds, s => (.error .outOfRounds, s)
  | .eval x next, s =>
    match x.run env call s with
    | (.ok b, s) => (next b).run env call s
    | (.error stop, s) => (.error stop, s)
  | .change c next, s =>
    match c.run s with
    | (.ok (), s) => next.run env call s
    | (.error stop, s) => (.error stop, s)

end Execution

end NoteShell.Script
