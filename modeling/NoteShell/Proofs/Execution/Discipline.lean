import NoteShell.Proofs.Execution.Invariant
import NoteShell.Proofs.Execution.Names
import NoteShell.Proofs.Values.Sound

/-!
# Disciplines

A discipline says which values a program may go on with, which heaps it may reach and which
statements it may consist of. It is lawful if the operations on values of the discipline give such
values and leave such heaps. This is said once for each operation, and holds then for all runs: a
run of steps that obey a discipline, in a state that obeys it, ends in such a state. Of an operation
on the heap it is said as well that it has changed nothing where it fails.

## Main definitions

* `Discipline` : what a program may go on with.
* `HeapM.Obeys` : steps on the heap that obey a discipline and fail before they change anything.
* `Work.Obeys`, `Run.Obeys` : actions that obey a discipline, and what is known of their results.
* `Evaluation.Obeys`, `Execution.Obeys` : steps that obey a discipline.
* `Discipline.LooksUp` : names mean what the discipline says.

## Main results

* `Evaluation.Obeys.run`, `Execution.Obeys.run` : a run of steps that obey a discipline.
-/

namespace NoteShell.Script

open NoteShell.Grammar

/-- What a program may go on with. -/
structure Discipline where
  value : Value → Prop
  /-- The keys of dicts. -/
  key : String → Prop
  entries : Entries → Prop
  heap : Heap → Prop
  /-- The values that a name may mean. -/
  means : String → Value → Prop
  /-- The expressions that may be evaluated, apart from what is said about their parts. -/
  expr : Expr → Prop
  stmt : Stmt → Prop
  /-- Whether loops may use up their rounds. -/
  runsOut : Prop

variable {α β : Type} {D : Discipline} {A : α → Prop} {B : β → Prop}

/-- An effect gives a value of a discipline and leaves a heap of it. -/
def Effect.Obeys (D : Discipline) (h : Heap) (effect : Effect) : Prop :=
  D.value (effect h).1 ∧ D.heap (effect h).2

/-- Steps on a heap leave a heap of a discipline, and their results satisfy `A`. Where they fail,
the heap is as it was. -/
structure HeapM.ObeysAt (D : Discipline) (A : α → Prop) (h : Heap) (x : HeapM α) : Prop where
  heap : D.heap (x h).2
  result : Ensures A (x h).1
  unchanged : ∀ failure, (x h).1 = .error failure → (x h).2 = h

/-- Steps obey a discipline on each of its heaps. -/
def HeapM.Obeys (D : Discipline) (A : α → Prop) (x : HeapM α) : Prop :=
  ∀ h : Heap, D.heap h → x.ObeysAt D A h

/-- All arguments of a call are values of a discipline. -/
structure CallArgs.Obeys (D : Discipline) (args : CallArgs) : Prop where
  positional : ∀ v ∈ args.positional, D.value v
  keyword : ∀ e ∈ args.keyword, D.value e.2

/-- A value that may be missing, or another one in its place. -/
theorem value_getD {v? : Option Value} {default : Value} (hv : ∀ v ∈ v?, D.value v)
    (hdefault : D.value default) : D.value (v?.getD default) := by
  cases v? with
  | none => exact hdefault
  | some v => exact hv v rfl

namespace CallArgs.Obeys

variable {args : CallArgs} (hargs : args.Obeys D)

include hargs

theorem positional? {n : Nat} {v : Value} (hv : args.positional? n = some v) : D.value v :=
  hargs.positional v (List.mem_of_getElem? hv)

theorem get? {n : Nat} {name : String} {v : Value} (hv : args.get? n name = some v) :
    D.value v := by
  rcases Option.or_eq_some_iff.mp hv with hv | ⟨-, hv⟩
  · exact hargs.positional? hv
  · obtain ⟨e, he, rfl⟩ := Option.map_eq_some_iff.mp hv
    exact hargs.keyword e (List.mem_of_find?_eq_some he)

theorem first (hnone : D.value .none) : D.value args.first :=
  value_getD (fun _ => hargs.positional?) hnone

theorem second (hnone : D.value .none) : D.value args.second :=
  value_getD (fun _ => hargs.positional?) hnone

end CallArgs.Obeys

/-! ### Steps on the heap -/

namespace HeapM

variable {h : Heap}

theorem obeysAt_of_ok {x : HeapM α} {a : α} {h' : Heap} (hx : x h = (.ok a, h')) (hh : D.heap h')
    (ha : A a) : x.ObeysAt D A h := by
  constructor <;> rw [hx]
  · exact hh
  · exact ensures_ok ha
  · rintro _ ⟨⟩

theorem obeysAt_pure (hh : D.heap h) {a : α} (ha : A a) : (pure a : HeapM α).ObeysAt D A h :=
  obeysAt_of_ok rfl hh ha

theorem obeysAt_fail (hh : D.heap h) {e : EvalError} : (HeapM.fail e).ObeysAt D A h :=
  ⟨hh, ensures_error, fun _ _ => rfl⟩

theorem obeysAt_fail_bind (hh : D.heap h) {e : EvalError} {f : α → HeapM β} :
    (HeapM.fail e >>= f).ObeysAt D B h :=
  ⟨hh, ensures_error, fun _ _ => rfl⟩

theorem obeysAt_reading (hh : D.heap h) {f : Heap → Except Failure α} (hf : Ensures A (f h)) :
    (reading f).ObeysAt D A h :=
  ⟨hh, hf, fun _ _ => rfl⟩

theorem obeysAt_perform {effect : Effect} (heffect : effect.Obeys D h) :
    (perform effect).ObeysAt D D.value h :=
  obeysAt_of_ok rfl heffect.2 heffect.1

theorem obeysAt_updateList {r : ListRef} {f : Array Value → Array Value}
    (hh : D.heap (h.updateList r f)) : (updateList r f).ObeysAt D (fun _ => True) h :=
  obeysAt_of_ok rfl hh trivial

theorem obeysAt_updateDict {r : DictRef} {f : Entries → Entries} (hh : D.heap (h.updateDict r f)) :
    (updateDict r f).ObeysAt D (fun _ => True) h :=
  obeysAt_of_ok rfl hh trivial

theorem obeysAt_get {f : Heap → HeapM α} (hf : (f h).ObeysAt D A h) :
    (get >>= f : HeapM α).ObeysAt D A h :=
  ⟨hf.heap, hf.result, hf.unchanged⟩

/-- A check goes first. Where it fails, nothing has been changed. -/
theorem ObeysAt.check {x : Except EvalError α} {f : α → HeapM β} (hh : D.heap h) (hx : Ensures A x)
    (hf : ∀ a, A a → (f a).ObeysAt D B h) : (liftM x >>= f : HeapM β).ObeysAt D B h := by
  cases x with
  | error e => exact ⟨hh, ensures_error, fun _ _ => rfl⟩
  | ok a => exact ⟨(hf a (hx a rfl)).heap, (hf a (hx a rfl)).result, (hf a (hx a rfl)).unchanged⟩

theorem ObeysAt.after {x : Except EvalError α} {f : α → HeapM β} (hh : D.heap h)
    (hf : ∀ a, (f a).ObeysAt D B h) : (liftM x >>= f : HeapM β).ObeysAt D B h :=
  .check hh ensures_true fun a _ => hf a

/-- A check that may be a crash goes first. -/
theorem ObeysAt.ask {x : Except Failure α} {f : α → HeapM β} (hh : D.heap h) (hx : Ensures A x)
    (hf : ∀ a, A a → (f a).ObeysAt D B h) : (liftM x >>= f : HeapM β).ObeysAt D B h := by
  cases x with
  | error e => exact ⟨hh, ensures_error, fun _ _ => rfl⟩
  | ok a => exact ⟨(hf a (hx a rfl)).heap, (hf a (hx a rfl)).result, (hf a (hx a rfl)).unchanged⟩

theorem obeysAt_ask {x : Except Failure α} (hh : D.heap h) (hx : Ensures A x) :
    (liftM x : HeapM α).ObeysAt D A h :=
  ⟨hh, hx, fun _ _ => rfl⟩

theorem obeysAt_result {x : Except EvalError α} (hh : D.heap h) (hx : Ensures A x) :
    (liftM x : HeapM α).ObeysAt D A h := by
  cases x with
  | error e => exact ⟨hh, ensures_error, fun _ _ => rfl⟩
  | ok a => exact obeysAt_pure hh (hx a rfl)

/-- A value is given after what has been done. -/
theorem ObeysAt.andReturn {x : HeapM α} {f : α → β} (hx : x.ObeysAt D A h)
    (hf : ∀ a, A a → B (f a)) :
    (x >>= fun a => pure (f a)).ObeysAt D B h := by
  obtain ⟨hheap, hresult, hunchanged⟩ := hx
  constructor <;> rw [bind_apply] <;> generalize x h = outcome at hheap hresult hunchanged ⊢ <;>
    rcases outcome with ⟨failure | a, h'⟩
  · exact hheap
  · exact hheap
  · exact ensures_error
  · exact ensures_ok (hf a (hresult a rfl))
  · exact fun _ _ => hunchanged _ rfl
  · rintro _ ⟨⟩

theorem ObeysAt.mono {A' : α → Prop} {x : HeapM α} (hx : x.ObeysAt D A h) (hA : ∀ a, A a → A' a) :
    x.ObeysAt D A' h :=
  ⟨hx.heap, hx.result.mono hA, hx.unchanged⟩

end HeapM

/-! ### Actions on the world -/

/-- An action leaves a heap of a discipline, and its results satisfy `A`. -/
def Work.Obeys (D : Discipline) (A : α → Prop) (x : Work α) : Prop :=
  ∀ w : World, D.heap w.heap → D.heap (x w).2.heap ∧ Ensures A (x w).1

namespace Work

theorem obeys_pure {a : α} (ha : A a) : Work.Obeys D A (pure a) :=
  fun _ hw => ⟨hw, ensures_ok ha⟩

theorem obeys_fail {e : EvalError} : Work.Obeys D A (Work.fail e) :=
  fun _ hw => ⟨hw, ensures_error⟩

theorem obeys_ofResult {x : Except EvalError α} (hx : Ensures A x) :
    Work.Obeys D A (Work.ofResult x) := by
  cases x with
  | ok a => exact obeys_pure (hx a rfl)
  | error e => exact obeys_fail

theorem obeys_readHeap {f : Heap → Except EvalError α}
    (hf : ∀ h : Heap, D.heap h → Ensures A (f h)) : Work.Obeys D A (Work.readHeap f) :=
  fun w hw => ⟨hw, (hf w.heap hw).lift⟩

theorem obeys_onHost {f : Host → Except Failure Unit × Host} :
    Work.Obeys D (fun _ => True) (Work.onHost f) :=
  fun _ hw => ⟨hw, ensures_true⟩

theorem obeys_bind {x : Work α} {f : α → Work β} (hx : x.Obeys D A)
    (hf : ∀ a, A a → (f a).Obeys D B) : Work.Obeys D B (x >>= f) := by
  intro w hw
  obtain ⟨hheap, hresult⟩ := hx w hw
  change D.heap (ExceptT.bindCont f (x w).1 (x w).2).2.heap ∧
    Ensures B (ExceptT.bindCont f (x w).1 (x w).2).1
  generalize x w = outcome at hheap hresult ⊢
  rcases outcome with ⟨e | a, w'⟩
  · exact ⟨hheap, ensures_error⟩
  · exact hf a (hresult a rfl) w' hheap

/-- Steps on the heap that obey a discipline. -/
theorem obeys_onHeap {op : HeapM α} (hop : op.Obeys D A) : Work.Obeys D A (Work.onHeap op) :=
  fun w hw => ⟨(hop w.heap hw).heap, (hop w.heap hw).result⟩

theorem obeys_perform {effect : Effect} (heffect : ∀ h : Heap, D.heap h → effect.Obeys D h) :
    Work.Obeys D D.value (Work.perform effect) :=
  obeys_onHeap fun h hh => HeapM.obeysAt_perform (heffect h hh)

end Work

/-! ### States -/

/-- All values of a state are values of a discipline. -/
structure State.Obeys (D : Discipline) (s : State) : Prop where
  heap : D.heap s.heap
  globals : ∀ e ∈ s.globals, D.value e.2
  locals : ∀ frame ∈ s.frames, ∀ e ∈ frame.locals, D.value e.2

/-- An action leaves a state that obeys a discipline, runs out of rounds only where this is allowed,
and its results satisfy `A`. -/
def Run.Obeys (D : Discipline) (A : α → Prop) (x : Run α) : Prop :=
  ∀ s : State, s.Obeys D → (x s).2.Obeys D ∧ ((x s).1 = .error .outOfRounds → D.runsOut) ∧
    ∀ a, (x s).1 = .ok a → A a

/-- Calls of functions of a discipline with such arguments obey the discipline. -/
def Caller.Obeys (D : Discipline) (call : Caller) : Prop :=
  ∀ r args, D.value (.function r) → args.Obeys D → (call r args).Obeys D D.value

namespace Run

/-- A known outcome of an action that obeys a discipline. -/
theorem Obeys.of_eq {x : Run α} (hx : x.Obeys D A) {s t : State} {result : Except Halt α}
    (hs : s.Obeys D) (heq : x s = (result, t)) : t.Obeys D ∧ ∀ a, result = .ok a → A a := by
  obtain ⟨ht, -, hresult⟩ := hx s hs
  rw [heq] at ht hresult
  exact ⟨ht, hresult⟩

theorem obeys_pure {a : α} (ha : A a) : Run.Obeys D A (pure a) := by
  refine fun s hs => ⟨hs, nofun, ?_⟩
  rintro _ ⟨⟩
  exact ha

theorem obeys_fail {e : EvalError} : Run.Obeys D A (Run.fail e) :=
  fun _ hs => ⟨hs, nofun, nofun⟩

theorem obeys_bind {x : Run α} {f : α → Run β} (hx : x.Obeys D A)
    (hf : ∀ a, A a → (f a).Obeys D B) : Run.Obeys D B (x >>= f) := by
  intro s hs
  obtain ⟨hstate, hrounds, hresult⟩ := hx s hs
  rw [bind_apply]
  generalize x s = outcome at hstate hrounds hresult ⊢
  rcases outcome with ⟨stop | a, t⟩
  · refine ⟨hstate, ?_, nofun⟩
    rintro ⟨⟩
    exact hrounds rfl
  · exact hf a (hresult a rfl) t hstate

theorem obeys_get : Run.Obeys D (State.Obeys D) (get : Run State) := by
  refine fun s hs => ⟨hs, nofun, ?_⟩
  rintro _ ⟨⟩
  exact hs

theorem obeys_modify {f : State → State} (hf : ∀ s : State, s.Obeys D → (f s).Obeys D) :
    Run.Obeys D (fun _ => True) (modify f : Run Unit) :=
  fun s hs => ⟨hf s hs, nofun, fun _ _ => trivial⟩

theorem obeys_onWorld {x : Work α} (hx : x.Obeys D A) : Run.Obeys D A (Run.onWorld x) := by
  rintro ⟨globals, frames, heap, host⟩ hs
  obtain ⟨hheap, hresult⟩ := hx ⟨heap, host⟩ hs.heap
  rw [Run.onWorld]
  generalize x ⟨heap, host⟩ = outcome at hheap hresult ⊢
  rcases outcome with ⟨failure | a, w⟩
  · refine ⟨⟨hheap, hs.globals, hs.locals⟩, ?_, ?_⟩
    · intro hrounds
      cases failure <;> cases hrounds
    · rintro _ ⟨⟩
  · refine ⟨⟨hheap, hs.globals, hs.locals⟩, ?_, ?_⟩
    · rintro ⟨⟩
    · rintro _ ⟨⟩
      exact hresult a rfl

end Run

/-! ### Names -/

/-- Names mean what a discipline says: what they are bound to, and what they mean without it. -/
structure Discipline.LooksUp (D : Discipline) (env : Env) : Prop where
  bound : ∀ {name v}, D.value v → D.means name v
  ambient : ∀ name, (ambientValue env name).Obeys D (D.means name)

theorem value_of_bound {s : State} (hs : s.Obeys D) {name : String} {v : Value}
    (hv : s.bound? name = some v) : D.value v := by
  have hglobal {w : Value} (hw : Entries.get? name s.globals = some w) : D.value w :=
    hs.globals _ (Entries.mem_of_get? hw)
  rw [State.bound?] at hv
  cases hframe : s.frameOf? name with
  | none =>
    rw [hframe] at hv
    exact hglobal hv
  | some frame =>
    rw [hframe] at hv
    have hmem : frame ∈ s.frames := by
      rw [State.frameOf?] at hframe
      split at hframe
      · next hframes =>
        split_ifs at hframe
        cases hframe
        rw [hframes]
        exact List.mem_cons_self
      · cases hframe
    rcases Option.or_eq_some_iff.mp hv with hlocal | ⟨-, hv⟩
    · exact hs.locals frame hmem _ (Entries.mem_of_get? hlocal)
    · exact hglobal hv

theorem Discipline.LooksUp.lookup {env : Env} (hD : D.LooksUp env) (name : String) :
    (Script.lookup env name).Obeys D (D.means name) := by
  intro s hs
  rw [lookup_apply]
  cases hbound : s.bound? name with
  | none => exact Run.obeys_onWorld (hD.ambient name) s hs
  | some v => exact Run.obeys_pure (hD.bound (value_of_bound hs hbound)) s hs

/-- What names are changed to is a value of a discipline. -/
def NameChange.Obeys (D : Discipline) : NameChange → Prop
  | .store _ v => D.value v
  | .unbind _ | .declareGlobal _ => True

theorem obeys_changeNames (name : String) {f : Entries → Entries}
    (hf : ∀ es : Entries, (∀ e ∈ es, D.value e.2) → ∀ e ∈ f es, D.value e.2) {s : State}
    (hs : s.Obeys D) : (s.changeNames name f).Obeys D := by
  obtain ⟨globals, frames, heap, host⟩ := s
  obtain ⟨hheap, hglobals, hlocals⟩ := hs
  cases frames with
  | nil => exact ⟨hheap, hf _ hglobals, hlocals⟩
  | cons frame rest =>
    rw [State.changeNames]
    split_ifs
    · exact ⟨hheap, hf _ hglobals, hlocals⟩
    · rw [List.forall_mem_cons] at hlocals
      exact ⟨hheap, hglobals, List.forall_mem_cons.mpr ⟨hf _ hlocals.1, hlocals.2⟩⟩

theorem obeys_checkAssignable (name : String) :
    (checkAssignable name).Obeys D fun _ => True := by
  unfold checkAssignable
  split
  · exact Run.obeys_fail
  · exact Run.obeys_pure trivial

theorem NameChange.Obeys.run {c : NameChange} (hc : c.Obeys D) :
    c.run.Obeys D fun _ => True := by
  cases c with
  | store name v =>
    refine Run.obeys_bind (obeys_checkAssignable name) fun _ _ => Run.obeys_modify fun s => ?_
    refine obeys_changeNames name fun es hes e he => ?_
    rcases Entries.mem_of_mem_set he with rfl | he
    · exact hc
    · exact hes e he
  | unbind name =>
    refine Run.obeys_bind (obeys_checkAssignable name) fun _ _ =>
      Run.obeys_bind Run.obeys_get fun t _ => ?_
    split_ifs
    · refine Run.obeys_modify fun s => obeys_changeNames name fun es hes e he => ?_
      exact hes e ((Entries.erase_sublist name es).subset he)
    · exact Run.obeys_fail
  | declareGlobal names =>
    refine Run.obeys_modify fun s hs => ?_
    obtain ⟨globals, frames, heap, host⟩ := s
    cases frames with
    | nil => exact hs
    | cons frame rest =>
      obtain ⟨hheap, hglobals, hlocals⟩ := hs
      rw [List.forall_mem_cons] at hlocals
      exact ⟨hheap, hglobals, List.forall_mem_cons.mpr hlocals⟩

/-! ### Steps -/

/-- The actions in an evaluation obey a discipline as long as their values do, the functions that
are called are values of the discipline, and the result satisfies `A`. -/
def Evaluation.Obeys (D : Discipline) (A : α → Prop) : Evaluation α → Prop
  | .done a => A a
  | .work x next => ∃ B, x.Obeys D B ∧ ∀ b, B b → (next b).Obeys D A
  | .lookup name next => ∀ v, D.means name v → (next v).Obeys D A
  | .call r args next =>
    D.value (.function r) ∧ args.Obeys D ∧ ∀ v, D.value v → (next v).Obeys D A

/-- The evaluations in an execution obey a discipline, names are bound to its values only, and loops
use up their rounds only where this is allowed. -/
def Execution.Obeys (D : Discipline) (A : α → Prop) : Execution α → Prop
  | .done a => A a
  | .outOfRounds => D.runsOut
  | .eval x next => ∃ B, x.Obeys D B ∧ ∀ b, B b → (next b).Obeys D A
  | .change c next => c.Obeys D ∧ next.Obeys D A

theorem Evaluation.Obeys.bind {x : Evaluation α} {f : α → Evaluation β} (hx : x.Obeys D A)
    (hf : ∀ a, A a → (f a).Obeys D B) : (x >>= f).Obeys D B := by
  induction x with
  | done a => exact hf a hx
  | work x next ih =>
    obtain ⟨C, hwork, hnext⟩ := hx
    exact ⟨C, hwork, fun c hc => ih c (hnext c hc)⟩
  | lookup name next ih => exact fun v hv => ih v (hx v hv)
  | call r args next ih => exact ⟨hx.1, hx.2.1, fun v hv => ih v (hx.2.2 v hv)⟩

theorem Evaluation.obeys_lift {x : Work α} (hx : x.Obeys D A) :
    (liftM x : Evaluation α).Obeys D A :=
  ⟨A, hx, fun _ ha => ha⟩

theorem Execution.Obeys.bind {x : Execution α} {f : α → Execution β} (hx : x.Obeys D A)
    (hf : ∀ a, A a → (f a).Obeys D B) : (x >>= f).Obeys D B := by
  induction x with
  | done a => exact hf a hx
  | outOfRounds => exact hx
  | eval x next ih =>
    obtain ⟨C, heval, hnext⟩ := hx
    exact ⟨C, heval, fun c hc => ih c (hnext c hc)⟩
  | change c next ih => exact ⟨hx.1, ih hx.2⟩

theorem Execution.obeys_lift {x : Evaluation α} (hx : x.Obeys D A) :
    (liftM x : Execution α).Obeys D A :=
  ⟨A, hx, fun _ ha => ha⟩

theorem Execution.obeys_liftWork {x : Work α} (hx : x.Obeys D A) :
    (liftM x : Execution α).Obeys D A :=
  Execution.obeys_lift (Evaluation.obeys_lift hx)

/-! ### Runs -/

variable {env : Env} {call : Caller}

/-- A run of steps that obey a discipline obeys it, if calls do. -/
theorem Evaluation.Obeys.run (hD : D.LooksUp env) (hcall : call.Obeys D) {x : Evaluation α}
    (hx : x.Obeys D A) : (x.run env call).Obeys D A := by
  induction x with
  | done a => exact Run.obeys_pure hx
  | work x next ih =>
    obtain ⟨C, hwork, hnext⟩ := hx
    rw [run_work]
    exact Run.obeys_bind (Run.obeys_onWorld hwork) fun c hc => ih c (hnext c hc)
  | lookup name next ih =>
    rw [run_lookup]
    exact Run.obeys_bind (hD.lookup name) fun v hv => ih v (hx v hv)
  | call r args next ih =>
    rw [run_call]
    exact Run.obeys_bind (hcall r args hx.1 hx.2.1) fun v hv => ih v (hx.2.2 v hv)

/-- A run of statements that obey a discipline obeys it, if calls do. -/
theorem Execution.Obeys.run (hD : D.LooksUp env) (hcall : call.Obeys D) {x : Execution α}
    (hx : x.Obeys D A) : (x.run env call).Obeys D A := by
  induction x with
  | done a => exact Run.obeys_pure hx
  | outOfRounds => exact fun _ hs => ⟨hs, fun _ => hx, nofun⟩
  | eval x next ih =>
    obtain ⟨C, heval, hnext⟩ := hx
    rw [run_eval]
    exact Run.obeys_bind (heval.run hD hcall) fun c hc => ih c (hnext c hc)
  | change c next ih =>
    rw [run_change]
    exact Run.obeys_bind hx.1.run fun _ _ => ih hx.2

end NoteShell.Script
