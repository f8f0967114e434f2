import NoteShell.Proofs.Execution.CallLimit
import NoteShell.Proofs.Regions.Programs
import NoteShell.Proofs.Values.Ordering
import NoteShell.Proofs.Values.Ranges

/-!
# Termination

A program without a loop with a test comes to an end after finitely many steps: normally, with an
error or in a crash. A loop over items makes no more rounds than there were items when it began, and
calls that go deeper than 200 levels end the program with an error.

## Main definitions

* `Takes` : the number of steps in which a run ends, and how it ends.

## Main results

* `exists_takes` : a run that has not used up its rounds takes finitely many steps.
* `programs_terminate` : programs without a loop with a test come to an end.
-/

namespace NoteShell.Script

open NoteShell.Grammar

variable {α β : Type} {env : Env} {depth : Nat} {s t : State}

/-! ### Counting steps -/

/-- The run of some steps ends after `steps` of them, where `depth` further calls may be nested.
Actions on the world, and with them all operations and calls of builtin functions and skills, are
one step each, and so are lookups and changes of names. A call of a function is one step before
those of its body. -/
inductive Takes (env : Env) :
    (depth : Nat) → {α : Type} → Execution α → State → (steps : Nat) → Except Failure α → State → Prop
  | done {α : Type} {depth s} (a : α) : Takes env depth (.done a) s 0 (.ok a) s
  | evaluated {α β : Type} {depth s n r t} {b : β} {next : β → Execution α}
    (h : Takes env depth (next b) s n r t) : Takes env depth (.eval (.done b) next) s n r t
  | work {α β γ : Type} {depth s n r t u} {x : Work γ} {c : γ} {more : γ → Evaluation β}
    {next : β → Execution α} (hx : Run.onWorld x s = (.ok c, t))
    (h : Takes env depth (.eval (more c) next) t n r u) :
    Takes env depth (.eval (.work x more) next) s (n + 1) r u
  | workFailed {α β γ : Type} {depth s failure t} {x : Work γ} {more : γ → Evaluation β}
    {next : β → Execution α} (hx : Run.onWorld x s = (.error failure.halt, t)) :
    Takes env depth (.eval (.work x more) next) s 1 (.error failure) t
  | lookup {α β : Type} {depth name s n r t u v} {more : Value → Evaluation β}
    {next : β → Execution α} (hname : Script.lookup env name s = (.ok v, t))
    (h : Takes env depth (.eval (more v) next) t n r u) :
    Takes env depth (.eval (.lookup name more) next) s (n + 1) r u
  | lookupFailed {α β : Type} {depth name s failure t} {more : Value → Evaluation β}
    {next : β → Execution α} (hname : Script.lookup env name s = (.error failure.halt, t)) :
    Takes env depth (.eval (.lookup name more) next) s 1 (.error failure) t
  | call {α β : Type} {depth f args frame flow s n m r t u} {more : Value → Evaluation β}
    {next : β → Execution α} (hargs : bindArguments (s.heap.function f) args = .ok frame)
    (hbody : Takes env depth (execBlock env (s.heap.function f).body) (s.enter frame) n (.ok flow) t)
    (h : Takes env (depth + 1) (.eval (more flow.result) next) t.leave m r u) :
    Takes env (depth + 1) (.eval (.call f args more) next) s (n + m + 1) r u
  | callFailed {α β : Type} {depth f args frame failure s n t} {more : Value → Evaluation β}
    {next : β → Execution α} (hargs : bindArguments (s.heap.function f) args = .ok frame)
    (hbody : Takes env depth (execBlock env (s.heap.function f).body) (s.enter frame) n
      (.error failure) t) :
    Takes env (depth + 1) (.eval (.call f args more) next) s (n + 1) (.error failure) t.leave
  | callRejected {α β : Type} {depth f args e s} {more : Value → Evaluation β}
    {next : β → Execution α} (hargs : bindArguments (s.heap.function f) args = .error e) :
    Takes env (depth + 1) (.eval (.call f args more) next) s 1 (.error (.error e)) s
  | tooDeep {α β : Type} {f args s} {more : Value → Evaluation β} {next : β → Execution α} :
    Takes env 0 (.eval (.call f args more) next) s 1 (.error (.error .recursion)) s
  | change {α : Type} {depth c s n r t u} {next : Execution α} (hc : c.run s = (.ok (), t))
    (h : Takes env depth next t n r u) : Takes env depth (.change c next) s (n + 1) r u
  | changeFailed {α : Type} {depth c s failure t} {next : Execution α}
    (hc : c.run s = (.error failure.halt, t)) :
    Takes env depth (.change c next) s 1 (.error failure) t

/-- A run ends as the count of its steps says. -/
theorem Takes.run {x : Execution α} {n : Nat} {r : Except Failure α}
    (h : Takes env depth x s n r t) :
    x.run env (callFunction env depth) s = (r.mapError Failure.halt, t) := by
  induction h with
  | done a => rfl
  | evaluated _ ih => rwa [Execution.run, Evaluation.run]
  | work hx _ ih =>
    rw [Execution.run] at ih
    rwa [Execution.run, Evaluation.run, hx]
  | workFailed hx =>
    rw [Execution.run, Evaluation.run, hx]
    rfl
  | lookup hname _ ih =>
    rw [Execution.run] at ih
    rwa [Execution.run, Evaluation.run, hname]
  | lookupFailed hname =>
    rw [Execution.run, Evaluation.run, hname]
    rfl
  | call hargs _ _ ihbody ih =>
    rw [Execution.run] at ih
    rw [Execution.run, Evaluation.run, callFunction_of_ok hargs, ihbody]
    exact ih
  | callFailed hargs _ ihbody =>
    rw [Execution.run, Evaluation.run, callFunction_of_ok hargs, ihbody]
    rfl
  | callRejected hargs =>
    rw [Execution.run, Evaluation.run, callFunction_of_error hargs]
    rfl
  | tooDeep => rfl
  | change hc _ ih => rwa [Execution.run, hc]
  | changeFailed hc =>
    rw [Execution.run, hc]
    rfl

/-! ### Runs that do not use up their rounds -/

/-- A result does not say that a loop has used up its rounds. -/
def Bounded (result : Except Halt α) : Prop := result ≠ .error .outOfRounds

theorem bounded_ok (a : α) : Bounded (.ok a) := by
  rintro ⟨⟩

theorem bounded_failure (failure : Failure) : Bounded (.error failure.halt : Except Halt α) := by
  cases failure <;> rintro ⟨⟩

theorem Bounded.exists_failure {stop : Halt} (h : Bounded (.error stop : Except Halt α)) :
    ∃ failure : Failure, stop = failure.halt := by
  cases stop with
  | error e => exact ⟨.error e, rfl⟩
  | crash => exact ⟨.crash, rfl⟩
  | outOfRounds => exact absurd rfl h

theorem bounded_onWorld (x : Work α) (s : State) : Bounded (Run.onWorld x s).1 := by
  obtain ⟨globals, frames, heap, host⟩ := s
  rw [Run.onWorld]
  rcases x ⟨heap, host⟩ with ⟨failure | a, w⟩
  · exact bounded_failure failure
  · exact bounded_ok a

theorem bounded_lookup (env : Env) (name : String) (s : State) :
    Bounded (Script.lookup env name s).1 := by
  rw [lookup_apply]
  cases s.bound? name with
  | none => exact bounded_onWorld _ s
  | some v => exact bounded_ok v

theorem NameChange.bounded_run (c : NameChange) (s : State) : Bounded (c.run s).1 := by
  have hcheck (name : String) {x : Run Unit} (hx : Bounded (x s).1) :
      Bounded ((checkAssignable name >>= fun _ => x) s).1 := by
    cases hname : ContextName.ofName? name with
    | some c =>
      rw [Run.bind_of_error (checkAssignable_of_some hname s)]
      exact bounded_failure (.error _)
    | none => rwa [Run.bind_of_ok (checkAssignable_of_none hname s)]
  cases c with
  | store name v => exact hcheck name (bounded_ok ())
  | unbind name =>
    refine hcheck name ?_
    have hget : (get : Run State) s = (.ok s, s) := rfl
    rw [Run.bind_of_ok hget]
    split_ifs
    · exact bounded_ok ()
    · exact bounded_failure (.error _)
  | declareGlobal names => exact bounded_ok ()

/-- The steps of an evaluation, if the steps after it and those of the calls in it are finitely
many. -/
theorem exists_takes_eval
    (hbody : ∀ d, depth = d + 1 → ∀ (stmts : List Stmt) s,
      Bounded ((execBlock env stmts).run env (callFunction env d) s).1 →
        ∃ n r t, Takes env d (execBlock env stmts) s n r t)
    (x : Evaluation β) {next : β → Execution α}
    (hnext : ∀ b s, Bounded ((next b).run env (callFunction env depth) s).1 →
      ∃ n r t, Takes env depth (next b) s n r t)
    {s : State} (h : Bounded ((Execution.eval x next).run env (callFunction env depth) s).1) :
    ∃ n r t, Takes env depth (.eval x next) s n r t := by
  induction x generalizing s with
  | done b =>
    rw [Execution.run, Evaluation.run] at h
    obtain ⟨n, r, t, htakes⟩ := hnext b s h
    exact ⟨n, r, t, .evaluated htakes⟩
  | work y more ih =>
    rw [Execution.run, Evaluation.run] at h
    have hy := bounded_onWorld y s
    rcases hrun : Run.onWorld y s with ⟨stop | c, u⟩ <;> rw [hrun] at h hy
    · obtain ⟨failure, rfl⟩ := hy.exists_failure
      exact ⟨_, _, _, .workFailed hrun⟩
    · obtain ⟨n, r, t, htakes⟩ := ih c (by rwa [Execution.run])
      exact ⟨_, r, t, .work hrun htakes⟩
  | lookup name more ih =>
    rw [Execution.run, Evaluation.run] at h
    have hname := bounded_lookup env name s
    rcases hrun : Script.lookup env name s with ⟨stop | v, u⟩ <;> rw [hrun] at h hname
    · obtain ⟨failure, rfl⟩ := hname.exists_failure
      exact ⟨_, _, _, .lookupFailed hrun⟩
    · obtain ⟨n, r, t, htakes⟩ := ih v (by rwa [Execution.run])
      exact ⟨_, r, t, .lookup hrun htakes⟩
  | call f args more ih =>
    rw [Execution.run, Evaluation.run] at h
    cases depth with
    | zero => exact ⟨_, _, _, .tooDeep⟩
    | succ d =>
      cases hargs : bindArguments (s.heap.function f) args with
      | error e => exact ⟨_, _, _, .callRejected hargs⟩
      | ok frame =>
        rw [callFunction_of_ok hargs] at h
        have hsteps := hbody d rfl (s.heap.function f).body (s.enter frame)
        rcases hrun : (execBlock env (s.heap.function f).body).run env (callFunction env d)
          (s.enter frame) with ⟨stop | flow, u⟩ <;> rw [hrun] at h hsteps
        · obtain ⟨failure, rfl⟩ : ∃ failure : Failure, stop = failure.halt :=
            Bounded.exists_failure (α := Flow) fun heq => h (by cases heq; rfl)
          obtain ⟨n, r, t, htakes⟩ := hsteps (bounded_failure failure)
          have heq := htakes.run
          rw [hrun] at heq
          cases r with
          | ok flow => cases heq
          | error failure => exact ⟨_, _, _, .callFailed hargs htakes⟩
        · obtain ⟨n, r, t, htakes⟩ := hsteps (bounded_ok flow)
          have heq := htakes.run
          rw [hrun] at heq
          cases r with
          | ok flow' =>
            cases heq
            obtain ⟨m, r, w, hmore⟩ := ih flow.result (by rwa [Execution.run])
            exact ⟨_, r, w, .call hargs htakes hmore⟩
          | error failure => cases heq

/-- A run that has not used up its rounds takes finitely many steps. -/
theorem exists_takes (depth : Nat) (x : Execution α) (s : State)
    (h : Bounded (x.run env (callFunction env depth) s).1) :
    ∃ n r t, Takes env depth x s n r t := by
  induction depth using Nat.strongRecOn generalizing α x s with
  | ind depth ihdepth =>
  induction x generalizing s with
  | done a => exact ⟨0, _, s, .done a⟩
  | outOfRounds => exact absurd rfl h
  | eval y next ih =>
    refine exists_takes_eval (fun d hd stmts u hu => ?_) y ih h
    exact ihdepth d (hd ▸ Nat.lt_succ_self d) (execBlock env stmts) u hu
  | change c next ih =>
    rw [Execution.run] at h
    have hc := c.bounded_run s
    rcases hrun : c.run s with ⟨stop | _, u⟩ <;> rw [hrun] at h hc
    · obtain ⟨failure, rfl⟩ := hc.exists_failure
      exact ⟨_, _, _, .changeFailed hrun⟩
    · obtain ⟨n, r, t, htakes⟩ := ih u h
      exact ⟨_, r, t, .change hrun htakes⟩

/-! ### Loops over items -/

/-- The number of items of a value that has some to go through. -/
def itemCount? (h : Heap) : Value → Option Nat
  | .str s => some s.length
  | .list r => some (h.items r).size
  | .dict r => some (h.entries r).length
  | .range r => some r.length
  | _ => none

/-- A loop goes through as many items as its value has when the loop begins. -/
theorem exists_loopItems {h : Heap} {v : Value} {n : Nat} (hv : itemCount? h v = some n) :
    ∃ items, LoopItems.ofValue v h = .ok items ∧ items.toList.length = n := by
  cases v with
  | str s =>
    cases hv
    exact ⟨_, rfl, by simp [LoopItems.toList, String.length_toList]⟩
  | dict r =>
    cases hv
    exact ⟨_, rfl, by simp [LoopItems.toList]⟩
  | list r =>
    cases hv
    exact ⟨_, rfl, rfl⟩
  | range r =>
    cases hv
    obtain ⟨items, hitems, hterms⟩ := loopItems_range r h
    exact ⟨items, hitems, by rw [hterms, List.length_map, r.length_terms]⟩
  | _ => cases hv

/-- A statement with a loop over a value makes at most as many rounds as the value has items when
the loop begins. -/
theorem exists_loops_forLoop {call : Caller} {names : List String} {iterable : Expr}
    {stmts : List Stmt} {v : Value} {n : Nat}
    (hv : (evalExpr env iterable).run env call s = (.ok v, t)) (hn : itemCount? t.heap v = some n) :
    ∃ items rounds result u, LoopItems.ofValue v t.heap = .ok items ∧ items.toList.length = n ∧
      rounds ≤ n ∧
      Loops env call (bindLoopNames names) (execBlock env stmts) items.toList t rounds result u ∧
      (execStmt env (.forLoop names iterable stmts)).run env call s = (result, u) := by
  obtain ⟨items, hitems, rfl⟩ := exists_loopItems hn
  obtain ⟨rounds, result, u, hloops, hrun⟩ := exists_loops env call (bindLoopNames names)
    (execBlock env stmts) items.toList t
  exact ⟨items, rounds, result, u, hitems, rfl, hloops.rounds_le, hloops,
    (run_forLoop_forEach hv hitems).trans hrun⟩

/-! ### Programs -/

/-- A program without a loop with a test takes finitely many steps and ends normally, with an error
or in a crash, from every state from which no function with such a loop can be reached. A loop over
items runs its body at most as often as there were items when the loop began. A program that would
get into more than 200 nested calls, if a larger limit allowed them, ends with the error for it. And
a comparison of two values without an answer, which ends a program in a crash, has none however deep
it goes. -/
theorem programs_terminate (env : Env) :
    (∀ (stmts : List Stmt) (s : State), (∀ stmt ∈ stmts, stmt.WhileFree) → s.CallsWhileFree →
      ∃ steps result t,
        Takes env (maxCallDepth - s.frames.length) (execBlock env stmts) s steps result t ∧
          runProgram env stmts s = ((result.map fun _ => ()).mapError Failure.halt, t)) ∧
    (∀ (call : Caller) (names : List String) (iterable : Expr) (body : List Stmt) (s t : State)
      (v : Value) (n : Nat), (evalExpr env iterable).run env call s = (.ok v, t) →
      itemCount? t.heap v = some n →
      ∃ items rounds result u, LoopItems.ofValue v t.heap = .ok items ∧ items.toList.length = n ∧
        rounds ≤ n ∧
        Loops env call (bindLoopNames names) (execBlock env body) items.toList t rounds result u ∧
          (execStmt env (.forLoop names iterable body)).run env call s = (result, u)) ∧
    (∀ (stmts : List Stmt) (s : State) (limit : Nat) (callee? : Option Function) (p : RunPoint),
      Reaches env limit callee? (execBlock env stmts) s p →
      max maxCallDepth s.frames.length < p.state.frames.length →
      ∃ t, runProgram env stmts s = (.error (.error .recursion), t)) ∧
    ∀ (h : Heap) (a b : Value),
      (∀ locked, equalUnless h locked a b = none → ∀ depth, equalWithin h locked depth a b = none) ∧
        (compareValues h a b = none → ∀ depth, compareWithin h depth a b = none) := by
  refine ⟨fun stmts s hstmts hs => ?_, fun call names iterable body s t v n => exists_loops_forLoop,
    fun stmts s limit callee? p => Reaches.runProgram_recursion,
    fun h a b => ⟨fun locked => equalWithin_eq_none, compareWithin_eq_none⟩⟩
  obtain ⟨steps, result, t, htakes⟩ := exists_takes (maxCallDepth - s.frames.length)
    (execBlock env stmts) s (neverOutOfRounds env hstmts hs)
  refine ⟨steps, result, t, htakes, ?_⟩
  rw [runProgram_apply, callHere, htakes.run]
  cases result <;> rfl

/-- A state with a list of two numbers and with a function that calls itself. Another function,
which no name is bound to, never comes to an end. -/
def selfCallState : State :=
  let forever : Function := ⟨"g", [], [.whileLoop (.bool true) [.pass]]⟩
  let selfCall : Function := ⟨"f", [], [.returnValue (some (.call (.name "f") [] []))]⟩
  ⟨[("xs", .list ⟨0⟩), ("f", .function ⟨1⟩)], [], ⟨#[#[.int 1, .int 2]], #[], #[forever, selfCall]⟩,
    .ofFiles .empty⟩

/-- The only function that can be reached is the one that calls itself. -/
theorem callsWhileFree_selfCallState : selfCallState.CallsWhileFree := by
  have hreachable {r : Ref} (h : selfCallState.Reachable r) :
      r = .list ⟨0⟩ ∨ r = .function ⟨1⟩ := by
    induction h with
    | bound hv hr =>
      cases hv with
      | global he =>
        simp only [selfCallState, List.mem_cons, List.not_mem_nil, or_false] at he
        rcases he with rfl | rfl <;> cases hr
        · exact .inl rfl
        · exact .inr rfl
      | «local» hframe _ => cases hframe
    | held _ hv hr ih =>
      rcases ih with rfl | rfl
      · cases hv with
        | item hv =>
          have hv : _ ∈ #[Value.int 1, .int 2] := hv
          simp only [List.mem_toArray, List.mem_cons, List.not_mem_nil, or_false] at hv
          rcases hv with rfl | rfl <;> cases hr
      · cases hv with
        | default hp _ => cases hp
  intro r hr stmt hstmt path test body h
  rcases hreachable hr with heq | heq <;> cases heq
  cases List.mem_singleton.mp hstmt
  cases h

/-- The function that calls itself reaches every depth. -/
theorem reaches_selfCall (env : Env) (depth : Nat) (callee? : Option Function) (callers : Nat) :
    ∃ p, p.state.frames.length = callers + depth ∧
      Reaches env depth callee? (execBlock env [.returnValue (some (.call (.name "f") [] []))])
        { selfCallState with frames := List.replicate callers ⟨[], []⟩ } p := by
  induction depth generalizing callers callee? with
  | zero => exact ⟨_, List.length_replicate, .here _ _⟩
  | succ depth ih =>
    obtain ⟨p, hlength, hp⟩ := ih (some (selfCallState.heap.function ⟨1⟩)) (callers + 1)
    have hname : Script.lookup env "f"
        { selfCallState with frames := List.replicate callers ⟨[], []⟩ } =
          (.ok (.function ⟨1⟩),
            { selfCallState with frames := List.replicate callers ⟨[], []⟩ }) := by
      cases callers <;> rfl
    exact ⟨p, by omega, .lookup hname (.enter rfl hp)⟩

/-- A loop that adds to the list which it goes through, a call of the function that calls itself,
and comparisons of two lists that contain themselves. -/
theorem programs_terminate_selfCall :
    let env : Env := ⟨.empty coreNames, .empty, 1, .merging⟩
    let s := selfCallState
    let cyclic : Heap := ⟨#[#[.list ⟨0⟩], #[.list ⟨1⟩]], #[], #[]⟩
    let grow : List Stmt := [.expr (.call (.member (.name "xs") "append") [.name "x"] [])]
    (∃ steps result t,
      Takes env 200 (execBlock env [.forLoop ["x"] (.name "xs") grow]) s steps result t ∧
      runProgram env [.forLoop ["x"] (.name "xs") grow] s =
        ((result.map fun _ => ()).mapError Failure.halt, t)) ∧
    (∃ items rounds result u, LoopItems.ofValue (.list ⟨0⟩) s.heap = .ok items ∧
      items.toList.length = 2 ∧ rounds ≤ 2 ∧
      Loops env (callHere env s) (bindLoopNames ["x"]) (execBlock env grow) items.toList s rounds
        result u ∧
      (execStmt env (.forLoop ["x"] (.name "xs") grow)).run env (callHere env s) s = (result, u)) ∧
    (∃ t, runProgram env [.expr (.call (.name "f") [] [])] s = (.error (.error .recursion), t)) ∧
    (∀ depth, equalWithin cyclic none depth (.list ⟨0⟩) (.list ⟨1⟩) = none) ∧
    ∀ depth, compareWithin cyclic depth (.list ⟨0⟩) (.list ⟨1⟩) = none := by
  intro env s cyclic grow
  obtain ⟨hends, hloops, hcalls, hcompare⟩ := programs_terminate env
  refine ⟨hends _ s ?_ callsWhileFree_selfCallState, hloops _ _ _ _ s s (.list ⟨0⟩) 2 rfl rfl, ?_,
    (hcompare cyclic _ _).1 none rfl, (hcompare cyclic _ _).2 rfl⟩
  · intro stmt hstmt path test body h
    cases List.mem_singleton.mp hstmt
    cases h with
    | forLoop hs h =>
      cases List.mem_singleton.mp hs
      cases h
  · obtain ⟨p, hlength, hp⟩ := reaches_selfCall env 200 (some (s.heap.function ⟨1⟩)) 1
    have hname : Script.lookup env "f" s = (.ok (.function ⟨1⟩), s) := rfl
    refine hcalls _ s 201 none p (.lookup hname (.enter rfl hp)) ?_
    rw [hlength]
    decide

/-- A program that deletes a dict's entry for the dict itself has no loop with a test and ends in a
crash. -/
theorem deletion_crashes :
    let env : Env := ⟨.empty coreNames, .empty, 1, .merging⟩
    let s : State := ⟨[], [], .empty, .ofFiles .empty⟩
    let program : List Stmt :=
      [.assign [.name "d"] (.dict []), .delete [.index (.name "d") (.name "d")]]
    (∀ stmt ∈ program, stmt.WhileFree) ∧ s.CallsWhileFree ∧
      (runProgram env program s).1 = .error .crash := by
  intro env s program
  have hnone {r : Ref} (hr : s.Reachable r) : False := by
    induction hr with
    | bound hv _ =>
      cases hv with
      | global he => cases he
      | «local» hframe _ => cases hframe
    | held _ _ _ ih => exact ih
  refine ⟨?_, fun r hr => (hnone hr).elim, rfl⟩
  intro stmt hstmt path test body h
  rcases List.mem_cons.mp hstmt with rfl | hstmt
  · cases h
  · cases List.mem_singleton.mp hstmt
    cases h

end NoteShell.Script
