import NoteShell.Proofs.Execution.Run
import NoteShell.Proofs.Parsing.Sources
import NoteShell.Shell.Command

/-!
# Two ways to run a command

A command that is an expression is evaluated at once, and its value is shown. The same command can
be run as a program of one statement. The two ways differ only in the value that is shown at the
end.

## Main definitions

* `shownText` : the text that is shown for the outcome of an expression.
* `AddsLog` : two outcomes differ in a last message at most.

## Main results

* `runCommand_addsLog` : a command that is an expression, evaluated and run as a program.
* `parseExpression_parseProgram` : expressions and programs of one expression are the same texts,
  and running them differs only in the value shown.
-/

namespace NoteShell

open NoteShell.Grammar NoteShell.Script

/-- The text that is shown for the outcome of an expression, if any is. -/
def shownText : Except Halt Value × State → Option String
  | (.ok v, s) => if v.isNone then none else some (strValue s.heap v)
  | (.error _, _) => none

/-- The outcome `a` is the outcome `b` with a last message added, if there is one. -/
structure AddsLog (message? : Option String) (a b : Except Halt Unit × State) : Prop where
  result : a.1 = b.1
  globals : a.2.globals = b.2.globals
  frames : a.2.frames = b.2.frames
  heap : a.2.heap = b.2.heap
  host : a.2.host = message?.elim b.2.host b.2.host.log

variable {source : String} {e : Expr}

/-! ### Running -/

/-- A block of one expression evaluates it. -/
theorem execBlock_expr (env : Env) (call : Caller) (e : Expr) :
    (execBlock env [.expr e]).run env call =
      (evalExpr env e).run env call >>= fun _ => pure Flow.normal := by
  have hstmt : (execStmt env (.expr e)).run env call =
      (evalExpr env e).run env call >>= fun _ => pure Flow.normal := by
    rw [execStmt, Execution.run_bind, Execution.run_lift]
    rfl
  funext s
  rw [execBlock, Execution.run_bind, hstmt, Run.bind_apply, Run.bind_apply]
  rcases (evalExpr env e).run env call s with ⟨stop | v, s'⟩ <;> rfl

/-- A program of one expression evaluates it and drops its value. -/
theorem runProgram_expr (env : Env) (e : Expr) (s : State) :
    runProgram env [.expr e] s =
      match evaluate env e s with
      | (.ok _, s) => (.ok (), s)
      | (.error stop, s) => (.error stop, s) := by
  rw [runProgram_apply, evaluate_apply, execBlock_expr, Run.bind_apply]
  rcases (evalExpr env e).run env (callHere env s) s with ⟨stop | v, s'⟩ <;> rfl

/-- Showing a value evaluates the expression and writes a message. -/
theorem showValue_addsLog (env : Env) (e : Expr) (s : State) :
    AddsLog (shownText (evaluate env e s)) (showValue env e s) (runProgram env [.expr e] s) := by
  rw [runProgram_expr, showValue, Run.bind_apply]
  rcases evaluate env e s with ⟨stop | v, s'⟩
  · exact ⟨rfl, rfl, rfl, rfl, rfl⟩
  · dsimp only
    by_cases hv : v.isNone = true
    · simp only [if_pos hv, shownText]
      exact ⟨rfl, rfl, rfl, rfl, rfl⟩
    · simp only [if_neg hv, shownText]
      exact ⟨rfl, rfl, rfl, rfl, rfl⟩

/-- The two ways to run a command that is an expression. -/
theorem runCommand_addsLog (env : Env) (h : parseExpression source = .ok e) (s : State) :
    AddsLog (shownText (evaluate env e s)) (runCommand env source s) (runText env source s) := by
  rw [runCommand, runText, h, parseProgram_of_parseExpression h]
  exact showValue_addsLog env e s

/-- An expression is a program of one statement, and such a program without a semicolon is an
expression. Run as a command, an expression differs from the program only in the value that is shown
at the end. -/
theorem parseExpression_parseProgram (source : String) (e : Expr) :
    (parseExpression source = .ok e → parseProgram source = .ok [.expr e] ∧
      ∀ (env : Env) (s : State),
        AddsLog (shownText (evaluate env e s)) (runCommand env source s) (runText env source s)) ∧
    (parseProgram source = .ok [.expr e] →
      (∀ tokens, tokenize source = .ok tokens → ∀ t ∈ tokens, t.kind ≠ .symbol .semicolon) →
      parseExpression source = .ok e) := by
  refine ⟨fun h => ⟨parseProgram_of_parseExpression h, fun env s => runCommand_addsLog env h s⟩, ?_⟩
  intro h hsemicolon
  cases htokens : tokenize source with
  | error fault =>
    rw [parseProgram, htokens] at h
    cases h
  | ok tokens => exact parseExpression_of_parseProgram htokens (hsemicolon tokens htokens) h

/-- A sum is an expression and a program. -/
theorem parseExpression_parseProgram_sum :
    ∃ e, parseExpression "x + 1" = .ok e ∧ parseProgram "x + 1" = .ok [.expr e] := by
  cases h : parseExpression "x + 1" with
  | error fault =>
    have hsome : (parseExpression "x + 1").toOption.isSome = true := by decide +kernel
    rw [h] at hsome
    cases hsome
  | ok e => exact ⟨e, rfl, ((parseExpression_parseProgram "x + 1" e).1 h).1⟩

end NoteShell
