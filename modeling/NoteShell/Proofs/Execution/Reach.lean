import NoteShell.Proofs.Execution.Invariant

/-!
# Points of a run

A run of steps passes points: the state before each step, inside all the calls that are made, and
the state in which a step has failed. What is to be said about a run while it goes on is said about
these points.

## Main definitions

* `RunPoint` : a place in a run.
* `Reaches` : the points that the run of some steps passes.

## Main results

* `Reaches.holds` : what all steps keep holds at every point.
* `Reaches.of_run` : a run that does not fail passes the state in which it ends.
-/

namespace NoteShell.Script

/-- A place in a run. -/
structure RunPoint where
  /-- How many calls may still be nested. -/
  depth : Nat
  /-- The function of the innermost call. -/
  callee? : Option Function
  /-- The change of names that comes next, where one does. -/
  change? : Option NameChange
  state : State

/-- The change of names with which some steps begin. -/
def Execution.change? {α : Type} : Execution α → Option NameChange
  | .change c _ => some c
  | _ => none

/-- The points that the run of some steps passes, from a state in a call of the given function,
where `depth` further calls may be nested. -/
inductive Reaches (env : Env) :
    (depth : Nat) → Option Function → {α : Type} → Execution α → State → RunPoint → Prop
  | here {α : Type} {depth callee?} (x : Execution α) (s : State) :
    Reaches env depth callee? x s ⟨depth, callee?, x.change?, s⟩
  | done {α β : Type} {depth callee? s p} {a : α} {next : α → Execution β}
    (h : Reaches env depth callee? (next a) s p) :
    Reaches env depth callee? (.eval (.done a) next) s p
  | failed {α β γ : Type} {depth callee? s t stop} {x : Work γ} {more : γ → Evaluation α}
    {next : α → Execution β} (hx : Run.onWorld x s = (.error stop, t)) :
    Reaches env depth callee? (.eval (.work x more) next) s ⟨depth, callee?, none, t⟩
  | work {α β γ : Type} {depth callee? s t p} {x : Work γ} {c : γ} {more : γ → Evaluation α}
    {next : α → Execution β} (hx : Run.onWorld x s = (.ok c, t))
    (h : Reaches env depth callee? (.eval (more c) next) t p) :
    Reaches env depth callee? (.eval (.work x more) next) s p
  | lookup {α β : Type} {depth callee? name s t v p} {more : Value → Evaluation α}
    {next : α → Execution β} (hname : Script.lookup env name s = (.ok v, t))
    (h : Reaches env depth callee? (.eval (more v) next) t p) :
    Reaches env depth callee? (.eval (.lookup name more) next) s p
  | enter {α β : Type} {depth callee? r args frame s p} {more : Value → Evaluation α}
    {next : α → Execution β} (hargs : bindArguments (s.heap.function r) args = .ok frame)
    (h : Reaches env depth (some (s.heap.function r)) (execBlock env (s.heap.function r).body)
      (s.enter frame) p) :
    Reaches env (depth + 1) callee? (.eval (.call r args more) next) s p
  | leave {α β : Type} {depth callee? r args s t v p} {more : Value → Evaluation α}
    {next : α → Execution β} (hcall : callFunction env depth r args s = (.ok v, t))
    (h : Reaches env depth callee? (.eval (more v) next) t p) :
    Reaches env depth callee? (.eval (.call r args more) next) s p
  | change {α : Type} {depth callee? c s t p} {next : Execution α} (hc : c.run s = (.ok (), t))
    (h : Reaches env depth callee? next t p) :
    Reaches env depth callee? (.change c next) s p

/-- What holds at the beginning holds at every point, if it is kept along runs and when a call is
entered. -/
theorem Reaches.holds {R : State → State → Prop} (hR : Stable R)
    {I : Nat → Option Function → State → Prop}
    (hkeep : ∀ {depth c s t}, I depth c s → R s t → I depth c t)
    (henter : ∀ {depth c s f args frame}, I (depth + 1) c s → bindArguments f args = .ok frame →
      I depth (some f) (s.enter frame))
    {env : Env} {depth : Nat} {callee? : Option Function} {α : Type} {x : Execution α} {s : State}
    {p : RunPoint} (h : Reaches env depth callee? x s p) (hs : I depth callee? s) :
    I p.depth p.callee? p.state := by
  induction h with
  | here x s => exact hs
  | done _ ih => exact ih hs
  | failed hx => exact hkeep hs (Run.rel_of_eq (hR.onWorld _ _) hx)
  | work hx _ ih => exact ih (hkeep hs (Run.rel_of_eq (hR.onWorld _ _) hx))
  | lookup hname _ ih => exact ih (hkeep hs (Run.rel_of_eq (hR.lookup _ _ _) hname))
  | enter hargs _ ih => exact ih (henter hs hargs)
  | leave hcall _ ih => exact ih (hkeep hs (Run.rel_of_eq (hR.run_call _ _ _ _ _) hcall))
  | change hc _ ih => exact ih (hkeep hs (Run.rel_of_eq (hR.change _ _) hc))

/-! ### The end of a run -/

section End

variable {env : Env} {depth : Nat} {callee? : Option Function} {α β : Type} {s t : State} {a : α}

/-- The points after an evaluation are points of the run. -/
theorem Reaches.of_run_evaluation {x : Evaluation α} {next : α → Execution β} {p : RunPoint}
    (hrun : x.run env (callFunction env depth) s = (.ok a, t))
    (h : Reaches env depth callee? (next a) t p) :
    Reaches env depth callee? (.eval x next) s p := by
  induction x generalizing s with
  | done b =>
    rw [Evaluation.run] at hrun
    cases hrun
    exact .done h
  | work y more ih =>
    rw [Evaluation.run] at hrun
    rcases hy : Run.onWorld y s with ⟨stop | b, u⟩ <;> rw [hy] at hrun
    · cases hrun
    · exact .work hy (ih b hrun)
  | lookup name more ih =>
    rw [Evaluation.run] at hrun
    rcases hname : Script.lookup env name s with ⟨stop | v, u⟩ <;> rw [hname] at hrun
    · cases hrun
    · exact .lookup hname (ih v hrun)
  | call r args more ih =>
    rw [Evaluation.run] at hrun
    rcases hcall : callFunction env depth r args s with ⟨stop | v, u⟩ <;> rw [hcall] at hrun
    · cases hrun
    · exact .leave hcall (ih v hrun)

/-- A run that does not fail passes the state in which it ends. -/
theorem Reaches.of_run {x : Execution α}
    (hrun : x.run env (callFunction env depth) s = (.ok a, t)) :
    Reaches env depth callee? x s ⟨depth, callee?, none, t⟩ := by
  induction x generalizing s with
  | done b =>
    rw [Execution.run] at hrun
    cases hrun
    exact .here _ _
  | outOfRounds =>
    rw [Execution.run] at hrun
    cases hrun
  | eval x next ih =>
    rw [Execution.run] at hrun
    rcases hx : x.run env (callFunction env depth) s with ⟨stop | b, u⟩ <;> rw [hx] at hrun
    · cases hrun
    · exact .of_run_evaluation hx (ih b hrun)
  | change c next ih =>
    rw [Execution.run] at hrun
    rcases hc : c.run s with ⟨stop | _, u⟩ <;> rw [hc] at hrun
    · cases hrun
    · exact .change hc (ih hrun)

end End

end NoteShell.Script
