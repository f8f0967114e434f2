import Mathlib.Tactic.Common
import NoteShell.Script.Eval

/-!
# Running steps

How the actions of a program go on after each other, and how the steps of expressions and statements
are run one after the other.

## Main results

* `Evaluation.run_bind`, `Execution.run_bind` : steps that follow each other are run in order.
* `Run.onWorld_names` : an action on the world leaves all names alone.
* `Run.onHeap_apply`, `Run.readHeap_apply` : what steps on the heap do to a state.
* `runProgram_state` : a program ends in the state in which its statements end.
-/

namespace NoteShell.Script

open NoteShell.Grammar

variable {α β : Type} {env : Env} {call : Caller}

namespace Run

variable {x : Run α} {f : α → Run β} {s s' : State}

/-- An action goes on with the result of the one before it, in the state that this has reached. -/
theorem bind_apply (x : Run α) (f : α → Run β) (s : State) :
    (x >>= f) s =
      match x s with
      | (.ok a, s) => f a s
      | (.error stop, s) => (.error stop, s) := by
  change (ExceptT.bindCont f (x s).1) (x s).2 = _
  rcases x s with ⟨_ | _, _⟩ <;> rfl

theorem bind_of_ok {a : α} (h : x s = (.ok a, s')) : (x >>= f) s = f a s' := by
  rw [bind_apply, h]

theorem bind_of_error {stop : Halt} (h : x s = (.error stop, s')) :
    (x >>= f) s = (.error stop, s') := by
  rw [bind_apply, h]

/-- An action that has succeeded after another one has succeeded before it. -/
theorem bind_eq_ok {b : β} (h : (x >>= f) s = (.ok b, s')) :
    ∃ a t, x s = (.ok a, t) ∧ f a t = (.ok b, s') := by
  rw [bind_apply] at h
  rcases hx : x s with ⟨stop | a, t⟩ <;> rw [hx] at h
  · cases h
  · exact ⟨a, t, rfl, h⟩

theorem discard_apply (x : Run α) (s : State) :
    (discard x : Run Unit) s =
      match x s with
      | (.ok _, s) => (.ok (), s)
      | (.error stop, s) => (.error stop, s) := by
  change (x >>= fun _ => pure ()) s = _
  rw [bind_apply]
  rfl

/-- What relates an action's last state to its first one relates the states of a known outcome. -/
theorem rel_of_eq {R : State → State → Prop} {result : Except Halt α} (hR : R s (x s).2)
    (hx : x s = (result, s')) : R s s' := by
  rwa [hx] at hR

/-- An action on the world leaves all names alone. -/
theorem onWorld_names (x : Work α) (s : State) :
    (onWorld x s).2.globals = s.globals ∧ (onWorld x s).2.frames = s.frames := by
  obtain ⟨globals, frames, heap, host⟩ := s
  rw [onWorld]
  rcases x ⟨heap, host⟩ with ⟨_ | _, _, _⟩ <;> exact ⟨rfl, rfl⟩

end Run

/-! ### Actions on the heap -/

namespace HeapM

variable {x : HeapM α} {f : α → HeapM β} {h : Heap}

/-- Steps go on with the result of those before them, on the heap that these have left. -/
theorem bind_apply (x : HeapM α) (f : α → HeapM β) (h : Heap) :
    (x >>= f) h =
      match x h with
      | (.ok a, h) => f a h
      | (.error failure, h) => (.error failure, h) := by
  change (ExceptT.bindCont f (x h).1) (x h).2 = _
  rcases x h with ⟨_ | _, _⟩ <;> rfl

theorem reading_apply (f : Heap → Except Failure α) (h : Heap) : reading f h = (f h, h) := rfl

theorem get_bind (f : Heap → HeapM β) (h : Heap) : (get >>= f) h = f h h := rfl

/-- A result that does not depend on the heap leaves it alone. -/
theorem lift_bind (x : Except Failure α) (f : α → HeapM β) (h : Heap) :
    (liftM x >>= f) h =
      match x with
      | .ok a => f a h
      | .error failure => (.error failure, h) := by
  cases x <;> rfl

theorem check_bind (x : Except EvalError α) (f : α → HeapM β) (h : Heap) :
    (liftM x >>= f) h =
      match x with
      | .ok a => f a h
      | .error e => (.error (.error e), h) := by
  cases x <;> rfl

/-- A result leaves the heap alone. -/
theorem result_apply (x : Except EvalError α) (h : Heap) :
    (liftM x : HeapM α) h = (x.mapError .error, h) := by
  cases x <;> rfl

end HeapM

theorem Work.onHeap_of_eq {op : HeapM α} {w : World} {result : Except Failure α} {h : Heap}
    (hop : op w.heap = (result, h)) : Work.onHeap op w = (result, ⟨h, w.host⟩) := by
  rw [onHeap, hop]

/-- What is read from the heap leaves the world alone. -/
theorem Work.readHeap_apply (f : Heap → Except EvalError α) (w : World) :
    Work.readHeap f w = ((f w.heap).mapError .error, w) := by
  cases h : f w.heap <;> rw [readHeap, onHeap_of_eq (HeapM.reading_apply _ w.heap), h] <;> rfl

theorem Run.onHeap_apply (op : HeapM α) (s : State) :
    Run.onWorld (Work.onHeap op) s =
      match op s.heap with
      | (.ok a, h) => (.ok a, { s with heap := h })
      | (.error failure, h) => (.error failure.halt, { s with heap := h }) := by
  rw [onWorld, Work.onHeap]
  rcases op s.heap with ⟨_ | _, _⟩ <;> rfl

/-- What is read from the heap leaves the state alone. -/
theorem Run.readHeap_apply (f : Heap → Except EvalError α) (s : State) :
    Run.onWorld (Work.readHeap f) s =
      match f s.heap with
      | .ok a => (.ok a, s)
      | .error e => (.error (.error e), s) := by
  rw [Work.readHeap, onHeap_apply, HeapM.reading_apply]
  cases f s.heap <;> rfl

/-! ### Single steps -/

theorem Evaluation.run_work (x : Work β) (next : β → Evaluation α) :
    (Evaluation.work x next).run env call = Run.onWorld x >>= fun b => (next b).run env call := by
  funext s
  rw [Run.bind_apply]
  rcases h : Run.onWorld x s with ⟨_ | _, _⟩ <;> simp only [run, h]

theorem Evaluation.run_lookup (name : String) (next : Value → Evaluation α) :
    (Evaluation.lookup name next).run env call =
      Script.lookup env name >>= fun v => (next v).run env call := by
  funext s
  rw [Run.bind_apply]
  rcases h : Script.lookup env name s with ⟨_ | _, _⟩ <;> simp only [run, h]

theorem Evaluation.run_call (f : FunctionRef) (args : CallArgs) (next : Value → Evaluation α) :
    (Evaluation.call f args next).run env call = call f args >>= fun v =>
    (next v).run env call := by
  funext s
  rw [Run.bind_apply]
  rcases h : call f args s with ⟨_ | _, _⟩ <;> simp only [run, h]

theorem Execution.run_eval (x : Evaluation β) (next : β → Execution α) :
    (Execution.eval x next).run env call = x.run env call >>= fun b => (next b).run env call := by
  funext s
  rw [Run.bind_apply]
  rcases h : x.run env call s with ⟨_ | _, _⟩ <;> simp only [run, h]

theorem Execution.run_change (c : NameChange) (next : Execution α) :
    (Execution.change c next).run env call = c.run >>= fun _ => next.run env call := by
  funext s
  rw [Run.bind_apply]
  rcases h : c.run s with ⟨_ | _, _⟩ <;> simp only [run, h]

/-! ### Steps that follow each other -/

theorem Evaluation.run_bind (x : Evaluation α) (f : α → Evaluation β) :
    (x >>= f).run env call = x.run env call >>= fun a => (f a).run env call := by
  induction x with
  | done a => rfl
  | work x next ih =>
    change (Evaluation.work x fun b => next b >>= f).run env call = _
    rw [run_work, run_work, bind_assoc]
    exact congrArg _ (funext ih)
  | lookup name next ih =>
    change (Evaluation.lookup name fun v => next v >>= f).run env call = _
    rw [run_lookup, run_lookup, bind_assoc]
    exact congrArg _ (funext ih)
  | call r args next ih =>
    change (Evaluation.call r args fun v => next v >>= f).run env call = _
    rw [run_call, run_call, bind_assoc]
    exact congrArg _ (funext ih)

@[simp] theorem Evaluation.run_pure (a : α) :
    (pure a : Evaluation α).run env call = pure a := rfl

@[simp] theorem Evaluation.run_lift (x : Work α) :
    (liftM x : Evaluation α).run env call = Run.onWorld x :=
  (run_work x .done).trans (bind_pure _)

theorem Execution.run_bind (x : Execution α) (f : α → Execution β) :
    (x >>= f).run env call = x.run env call >>= fun a => (f a).run env call := by
  induction x with
  | done a => rfl
  | outOfRounds => rfl
  | eval x next ih =>
    change (Execution.eval x fun b => next b >>= f).run env call = _
    rw [run_eval, run_eval, bind_assoc]
    exact congrArg _ (funext ih)
  | change c next ih =>
    change (Execution.change c (next >>= f)).run env call = _
    rw [run_change, run_change, bind_assoc]
    exact congrArg _ (funext fun _ => ih)

@[simp] theorem Execution.run_pure (a : α) :
    (pure a : Execution α).run env call = pure a := rfl

@[simp] theorem Execution.run_lift (x : Evaluation α) :
    (liftM x : Execution α).run env call = x.run env call :=
  (run_eval x .done).trans (bind_pure _)

@[simp] theorem Execution.run_liftWork (x : Work α) :
    (liftM x : Execution α).run env call = Run.onWorld x :=
  (Execution.run_lift (liftM x)).trans (Evaluation.run_lift x)

/-- The steps of a name look it up. -/
theorem run_name (env : Env) (call : Caller) (name : String) :
    (evalExpr env (.name name)).run env call = Script.lookup env name := by
  rw [evalExpr]
  exact (Evaluation.run_lookup name .done).trans (bind_pure _)

theorem evaluate_apply (env : Env) (e : Expr) (s : State) :
    evaluate env e s = (evalExpr env e).run env (callHere env s) s := rfl

theorem runProgram_apply (env : Env) (stmts : List Stmt) (s : State) :
    runProgram env stmts s =
      match (execBlock env stmts).run env (callHere env s) s with
      | (.ok _, s) => (.ok (), s)
      | (.error stop, s) => (.error stop, s) := by
  change (discard ((execBlock env stmts).run env (callHere env s)) : Run Unit) s = _
  rw [Run.discard_apply]
  rcases (execBlock env stmts).run env (callHere env s) s with ⟨stop | flow, t⟩ <;> rfl

/-- A program ends in the state in which its statements end. -/
theorem runProgram_state (env : Env) (stmts : List Stmt) (s : State) :
    (runProgram env stmts s).2 = ((execBlock env stmts).run env (callHere env s) s).2 := by
  rw [runProgram_apply]
  rcases (execBlock env stmts).run env (callHere env s) s with ⟨stop | flow, t⟩ <;> rfl

end NoteShell.Script
