import NoteShell.Proofs.Execution.Frames

/-!
# The limit of nested calls

A run with a smaller limit of nested calls is the run with a larger one, up to the call that goes
over the smaller limit. There it ends with an error.

## Main definitions

* `Run.Cuts` : an action does what another one does, or fails at the limit.

## Main results

* `cuts_callFunction` : calls with a smaller limit do what those with a larger one do, or fail.
* `Reaches.recursion` : a run that would go deeper than the limit fails.
-/

namespace NoteShell.Script

open NoteShell.Grammar

variable {α β : Type} {env : Env} {limit depth : Nat} {s t : State}

/-! ### Cutting runs off -/

/-- An action does what another one does, unless it fails because too many calls are nested. -/
def Run.Cuts (x full : Run α) : Prop :=
  ∀ s, (x s).1 = .error (.error .recursion) ∨ x s = full s

theorem Run.Cuts.refl (x : Run α) : x.Cuts x := fun _ => .inr rfl

/-- What goes on after an action that fails at the limit fails as well. -/
theorem Run.recursion_bind {x : Run α} {f : α → Run β} (h : (x s).1 = .error (.error .recursion)) :
    ((x >>= f) s).1 = .error (.error .recursion) := by
  rw [Run.bind_apply]
  rcases hx : x s with ⟨stop | a, t⟩ <;> rw [hx] at h <;> cases h
  rfl

theorem Run.Cuts.bind {x full : Run α} {f g : α → Run β} (hx : x.Cuts full)
    (hf : ∀ a, (f a).Cuts (g a)) : (x >>= f).Cuts (full >>= g) := by
  intro s
  rcases hx s with hcut | heq
  · exact .inl (Run.recursion_bind hcut)
  · rw [Run.bind_apply, Run.bind_apply, heq]
    rcases full s with ⟨stop | a, t⟩
    · exact .inr rfl
    · exact hf a t

theorem Run.Cuts.inFrame {x full : Run α} (hx : x.Cuts full) (frame : Frame) :
    (Run.inFrame frame x).Cuts (Run.inFrame frame full) := by
  intro s
  rw [Run.inFrame_apply, Run.inFrame_apply]
  exact (hx (s.enter frame)).imp id fun heq => by rw [heq]

section Steps

variable {call full : Caller} (hcall : ∀ f args, (call f args).Cuts (full f args))

include hcall

theorem Run.Cuts.evaluation (x : Evaluation α) : (x.run env call).Cuts (x.run env full) := by
  induction x with
  | done a => exact .refl _
  | work y more ih =>
    rw [Evaluation.run_work, Evaluation.run_work]
    exact (Run.Cuts.refl _).bind ih
  | lookup name more ih =>
    rw [Evaluation.run_lookup, Evaluation.run_lookup]
    exact (Run.Cuts.refl _).bind ih
  | call f args more ih =>
    rw [Evaluation.run_call, Evaluation.run_call]
    exact (hcall f args).bind ih

theorem Run.Cuts.execution (x : Execution α) : (x.run env call).Cuts (x.run env full) := by
  induction x with
  | done a => exact .refl _
  | outOfRounds => exact .refl _
  | eval y more ih =>
    rw [Execution.run_eval, Execution.run_eval]
    exact (Run.Cuts.evaluation hcall y).bind ih
  | change c next ih =>
    rw [Execution.run_change, Execution.run_change]
    exact (Run.Cuts.refl _).bind fun _ => ih

end Steps

/-- Calls with a smaller limit do what calls with a larger one do, unless they fail at the limit. -/
theorem cuts_callFunction (env : Env) (h : depth ≤ limit) (f : FunctionRef) (args : CallArgs) :
    (callFunction env depth f args).Cuts (callFunction env limit f args) := by
  induction depth generalizing limit f args with
  | zero => exact fun s => .inl rfl
  | succ depth ih =>
    cases limit with
    | zero => exact absurd h (Nat.not_succ_le_zero depth)
    | succ limit =>
      have hbody (stmts : List Stmt) : ((execBlock env stmts).run env (callFunction env depth)).Cuts
          ((execBlock env stmts).run env (callFunction env limit)) :=
        .execution (ih (Nat.le_of_succ_le_succ h)) _
      rw [callFunction, callFunction]
      exact (Run.Cuts.refl _).bind fun f => (Run.Cuts.refl _).bind fun frame =>
        ((hbody f.body).inFrame frame).bind fun flow => .refl _

/-! ### Runs that go too deep -/

variable {callee? : Option Function} {x : Execution α} {p : RunPoint}

/-- A run that would pass a point inside of more calls than its limit allows ends with an error. -/
theorem Reaches.recursion (h : Reaches env limit callee? x s p) (hdepth : depth < limit - p.depth) :
    (x.run env (callFunction env depth) s).1 = .error (.error .recursion) := by
  induction h generalizing depth with
  | here x s => exact absurd hdepth (by simp)
  | failed hx => exact absurd hdepth (by simp)
  | done _ ih =>
    rw [Execution.run, Evaluation.run]
    exact ih hdepth
  | work hx _ ih =>
    have hrun := ih hdepth
    rw [Execution.run] at hrun
    rwa [Execution.run, Evaluation.run, hx]
  | lookup hname _ ih =>
    have hrun := ih hdepth
    rw [Execution.run] at hrun
    rwa [Execution.run, Evaluation.run, hname]
  | change hc _ ih =>
    rw [Execution.run, hc]
    exact ih hdepth
  | @enter _ _ limit _ f args frame s p more next hargs _ ih =>
    rw [Execution.run_eval, Evaluation.run_call]
    refine Run.recursion_bind (Run.recursion_bind ?_)
    cases depth with
    | zero => rfl
    | succ depth =>
      have hdepth : depth < limit - p.depth := by omega
      have hbody := ih hdepth
      rw [callFunction_of_ok hargs]
      rcases hrun : (execBlock env (s.heap.function f).body).run env (callFunction env depth)
        (s.enter frame) with ⟨stop | flow, t⟩ <;> rw [hrun] at hbody <;> cases hbody
      rfl
  | @leave _ _ limit _ f args s t v p more next hcall _ ih =>
    -- The call that has been left may itself have gone over the smaller limit.
    have hle : depth ≤ limit := Nat.le_of_lt (Nat.lt_of_lt_of_le hdepth (Nat.sub_le _ _))
    rcases cuts_callFunction env hle f args s with hcut | heq
    · rw [Execution.run_eval, Evaluation.run_call]
      exact Run.recursion_bind (Run.recursion_bind hcut)
    · have hrun := ih hdepth
      rw [Execution.run] at hrun
      rwa [Execution.run, Evaluation.run, heq, hcall]

/-- Every call that is made at a point of a run leaves one call less to be nested. -/
theorem Reaches.frames_add_depth (h : Reaches env limit callee? x s p) :
    p.state.frames.length + p.depth = s.frames.length + limit := by
  refine h.holds sameCalls_stable
    (I := fun depth _ t => t.frames.length + depth = s.frames.length + limit) ?_ ?_ rfl
  · intro depth c t u ht htu
    rwa [htu.1]
  · intro depth c t f args frame ht _
    change t.frames.length + 1 + depth = _
    omega

/-- A program that would pass a point inside of more than 200 calls ends with an error. -/
theorem Reaches.runProgram_recursion {stmts : List Stmt}
    (h : Reaches env limit callee? (execBlock env stmts) s p)
    (hdeep : max maxCallDepth s.frames.length < p.state.frames.length) :
    ∃ t, runProgram env stmts s = (.error (.error .recursion), t) := by
  have hframes := h.frames_add_depth
  have hrun : ((execBlock env stmts).run env (callHere env s) s).1 = .error (.error .recursion) :=
    h.recursion (by omega)
  rw [runProgram_apply]
  rcases heq : (execBlock env stmts).run env (callHere env s) s with ⟨stop | flow, t⟩ <;>
    rw [heq] at hrun <;> cases hrun
  exact ⟨t, rfl⟩

end NoteShell.Script
