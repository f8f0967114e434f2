import NoteShell.Proofs.Execution.Run

/-!
# Relations that runs keep

What holds of the states before and after a run follows from what holds of its steps. A relation
that is kept by actions on the world is kept by evaluations, if calls keep it. A relation that is
moreover kept by changes of names, and from the inside of a call to the outside, is kept by all
runs.

## Main definitions

* `Passive` : relations that actions on the world keep.
* `Stable` : relations that all steps keep.

## Main results

* `Passive.run_evaluation` : a passive relation holds along an evaluation.
* `Stable.run_execution`, `Stable.run_call` : a stable relation holds along every run.
* `Stable.evaluate`, `Stable.runProgram` : and so along every expression and program.
-/

namespace NoteShell.Script

open NoteShell.Grammar

variable {α : Type} {env : Env} {call : Caller} {R : State → State → Prop}

/-! ### Calls -/

/-- The state inside a new call. -/
def State.enter (frame : Frame) (s : State) : State := { s with frames := frame :: s.frames }

/-- The state after the innermost call. -/
def State.leave (s : State) : State := { s with frames := s.frames.tail }

theorem Run.inFrame_apply (frame : Frame) (body : Run α) (s : State) :
    Run.inFrame frame body s = ((body (s.enter frame)).1, (body (s.enter frame)).2.leave) := rfl

theorem readFunction_apply (r : FunctionRef) (s : State) :
    Run.onWorld (Work.readHeap fun h => .ok (h.function r)) s = (.ok (s.heap.function r), s) := rfl

/-- A call whose arguments do not fit fails before anything is bound. -/
theorem callFunction_of_error {depth : Nat} {r : FunctionRef} {args : CallArgs} {s : State}
    {e : EvalError} (h : bindArguments (s.heap.function r) args = .error e) :
    callFunction env (depth + 1) r args s = (.error (.error e), s) := by
  rw [callFunction, Run.bind_of_ok (readFunction_apply r s), Run.bind_apply, h]
  rfl

/-- A call runs the body of the function in a new frame, which is left afterwards. -/
theorem callFunction_of_ok {depth : Nat} {r : FunctionRef} {args : CallArgs} {s : State}
    {frame : Frame} (h : bindArguments (s.heap.function r) args = .ok frame) :
    callFunction env (depth + 1) r args s =
      match (execBlock env (s.heap.function r).body).run env (callFunction env depth)
        (s.enter frame) with
      | (.ok flow, t) => (.ok flow.result, t.leave)
      | (.error stop, t) => (.error stop, t.leave) := by
  have hbind : Run.onWorld (Work.ofResult (bindArguments (s.heap.function r) args)) s =
      (.ok frame, s) := by
    rw [h]
    rfl
  rw [callFunction, Run.bind_of_ok (readFunction_apply r s), Run.bind_of_ok hbind, Run.bind_apply,
    Run.inFrame_apply]
  rcases (execBlock env (s.heap.function r).body).run env (callFunction env depth) (s.enter frame)
    with ⟨stop | flow, t⟩ <;> rfl

/-- A name means what it is bound to, and otherwise what it means without any binding. -/
theorem lookup_apply (env : Env) (name : String) (s : State) :
    Script.lookup env name s =
      match s.bound? name with
      | some v => (.ok v, s)
      | none => Run.onWorld (ambientValue env name) s := by
  have hget : (get : Run State) s = (.ok s, s) := rfl
  rw [Script.lookup, Run.bind_of_ok hget]
  cases s.bound? name <;> rfl

/-! ### Runs -/

/-- A relation between states that every action on the world keeps. -/
structure Passive (R : State → State → Prop) : Prop where
  trans : ∀ {s t u}, R s t → R t u → R s u
  world : ∀ {s t}, t.globals = s.globals → t.frames = s.frames → R s t

/-- A relation between states that all steps of a program keep. -/
structure Stable (R : State → State → Prop) : Prop extends Passive R where
  change : ∀ (c : NameChange) s, R s (c.run s).2
  call : ∀ frame {s t}, R (s.enter frame) t → R s t.leave

theorem Passive.refl (h : Passive R) (s : State) : R s s := h.world rfl rfl

theorem Passive.onWorld (h : Passive R) (x : Work α) (s : State) : R s (Run.onWorld x s).2 :=
  h.world (Run.onWorld_names x s).1 (Run.onWorld_names x s).2

theorem Passive.lookup (h : Passive R) (env : Env) (name : String) (s : State) :
    R s (Script.lookup env name s).2 := by
  rw [lookup_apply]
  cases s.bound? name with
  | none => exact h.onWorld _ s
  | some v => exact h.refl s

/-- A passive relation holds along two actions, if it holds along each of them. -/
theorem Passive.bind {β : Type} (h : Passive R) {x : Run α} {f : α → Run β} {s : State}
    (hx : R s (x s).2) (hf : ∀ a t, R t (f a t).2) : R s ((x >>= f) s).2 := by
  rw [Run.bind_apply]
  rcases hrun : x s with ⟨stop | a, t⟩ <;> rw [hrun] at hx
  · exact hx
  · exact h.trans hx (hf a t)

/-- A passive relation holds along an evaluation, if it holds along the calls in it. -/
theorem Passive.run_evaluation (h : Passive R) (env : Env)
    (hcall : ∀ r args s, R s (call r args s).2) (x : Evaluation α) (s : State) :
    R s (x.run env call s).2 := by
  induction x generalizing s with
  | done a => exact h.refl s
  | work x next ih =>
    have hx := h.onWorld x s
    rw [Evaluation.run]
    rcases hrun : Run.onWorld x s with ⟨stop | b, t⟩ <;> rw [hrun] at hx
    · exact hx
    · exact h.trans hx (ih b t)
  | lookup name next ih =>
    have hx := h.lookup env name s
    rw [Evaluation.run]
    rcases hrun : Script.lookup env name s with ⟨stop | v, t⟩ <;> rw [hrun] at hx
    · exact hx
    · exact h.trans hx (ih v t)
  | call r args next ih =>
    have hx := hcall r args s
    rw [Evaluation.run]
    rcases hrun : call r args s with ⟨stop | v, t⟩ <;> rw [hrun] at hx
    · exact hx
    · exact h.trans hx (ih v t)

/-- A stable relation holds along an execution, if it holds along the calls in it. -/
theorem Stable.run_execution (h : Stable R) (env : Env)
    (hcall : ∀ r args s, R s (call r args s).2) (x : Execution α) (s : State) :
    R s (x.run env call s).2 := by
  induction x generalizing s with
  | done a => exact h.refl s
  | outOfRounds => exact h.refl s
  | eval x next ih =>
    have hx := h.run_evaluation env hcall x s
    rw [Execution.run]
    rcases hrun : x.run env call s with ⟨stop | b, t⟩ <;> rw [hrun] at hx
    · exact hx
    · exact h.trans hx (ih b t)
  | change c next ih =>
    have hx := h.change c s
    rw [Execution.run]
    rcases hrun : c.run s with ⟨stop | _, t⟩ <;> rw [hrun] at hx
    · exact hx
    · exact h.trans hx (ih t)

/-- A stable relation holds along every call. -/
theorem Stable.run_call (h : Stable R) (env : Env) (depth : Nat) (r : FunctionRef)
    (args : CallArgs) (s : State) : R s (callFunction env depth r args s).2 := by
  induction depth generalizing r args s with
  | zero => exact h.refl s
  | succ depth ih =>
    cases hbind : bindArguments (s.heap.function r) args with
    | error e =>
      rw [callFunction_of_error hbind]
      exact h.refl s
    | ok frame =>
      have hbody := h.run_execution env ih (execBlock env (s.heap.function r).body) (s.enter frame)
      rw [callFunction_of_ok hbind]
      rcases hrun : (execBlock env (s.heap.function r).body).run env (callFunction env depth)
        (s.enter frame) with ⟨stop | flow, t⟩ <;> rw [hrun] at hbody <;> exact h.call frame hbody

/-- A stable relation holds along the evaluation of an expression. -/
theorem Stable.evaluate (h : Stable R) (env : Env) (e : Expr) (s : State) :
    R s (evaluate env e s).2 :=
  h.run_evaluation env (h.run_call env _) (evalExpr env e) s

/-- A stable relation holds along a program. -/
theorem Stable.runProgram (h : Stable R) (env : Env) (stmts : List Stmt) (s : State) :
    R s (runProgram env stmts s).2 := by
  rw [runProgram_state]
  exact h.run_execution env (h.run_call env _) (execBlock env stmts) s

end NoteShell.Script
