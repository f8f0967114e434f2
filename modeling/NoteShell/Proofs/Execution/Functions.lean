import NoteShell.Proofs.Execution.PrimitiveCalls

/-!
# Functions that are kept

A function that has been made is never changed and never goes away: operations on lists and dicts
leave all functions alone, and a definition adds one. At whatever later time a function is called,
it has the parameters, the defaults and the body with which it was defined.

## Main definitions

* `Later` : the states that can come after a state.

## Main results

* `keepsFunction_lawful` : no step of a program changes a function.
* `Later.function_eq` : in all later states a function is the same.
-/

namespace NoteShell.Script

open NoteShell.Grammar

/-! ### Programs -/

/-- The discipline of programs in whose heap a reference stands for a given function. -/
def keepsFunction (r : FunctionRef) (f : Function) : Discipline :=
  .ofHeap fun h => h.functions[r.index]? = some f

variable {r : FunctionRef} {f : Function} {env : Env}

/-- Lists and dicts may be changed as they like. -/
theorem keepsFunction_primitives (r : FunctionRef) (f : Function) :
    (keepsFunction r f).Primitives (fun _ => True) fun _ => True :=
  Discipline.primitives_ofHeap (fun _ => id) (fun _ => id) (fun _ _ => id) fun _ _ => id

/-- A definition adds a function after those that there are. -/
theorem keepsFunction_newFunction {h : Heap} (hh : (keepsFunction r f).heap h) (g : Function) :
    Effect.Obeys (keepsFunction r f) h fun h => h.newFunction g := by
  obtain ⟨hr, -⟩ := Array.getElem?_eq_some_iff.mp hh
  exact ⟨trivial, (Array.getElem?_push_lt hr).trans ((Array.getElem?_eq_getElem hr).symm.trans hh)⟩

theorem keepsFunction_programs (r : FunctionRef) (f : Function) :
    (keepsFunction r f).Programs fun _ => True where
  bound _ := trivial
  builtinName _ := trivial
  skillName _ := trivial
  operand _ _ _ := trivial
  text _ := trivial
  formatted _ _ := trivial
  display _ := trivial
  name _ _ := trivial
  method _ _ := ensures_true
  newFunction _ _ hh := keepsFunction_newFunction hh _
  defaults _ _ := fun _ _ _ _ => trivial
  body _ _ := fun _ _ => trivial
  exprs _ _ _ := fun _ _ => trivial
  bodies _ := fun _ _ => trivial
  loops _ := trivial

/-- No step of a program changes a function. -/
theorem keepsFunction_lawful (r : FunctionRef) (f : Function) (env : Env) :
    (keepsFunction r f).Lawful env :=
  (keepsFunction_primitives r f).lawful (Discipline.documents_of_values fun _ => trivial)
    env.fits_true
    (keepsFunction_programs r f)

/-! ### Later states -/

/-- The states that can come after a state: those at the points of a run of any statements, those
with other names but the same heap, such as when a call is entered or left, and those that come
after such states. -/
inductive Later : State → State → Prop
  | refl (s : State) : Later s s
  | run {env depth callee? stmts s p t} (hp : Reaches env depth callee? (execBlock env stmts) s p)
    (h : Later p.state t) : Later s t
  | names {s s' t : State} (hheap : s'.heap = s.heap) (h : Later s' t) : Later s t

theorem Reaches.function_eq {depth : Nat} {callee? : Option Function}
    {stmts : List Stmt} {s : State}
    {p : RunPoint} (h : Reaches env depth callee? (execBlock env stmts) s p)
    (hs : s.heap.functions[r.index]? = some f) : p.state.heap.functions[r.index]? = some f := by
  have hlawful := keepsFunction_lawful r f env
  refine (h.obeys hlawful (obeys_execBlock hlawful fun _ _ => trivial) ?_).heap
  exact ⟨hs, fun _ _ => trivial, fun _ _ _ _ => trivial⟩

/-- In all later states a function is the same. -/
theorem Later.function_eq {s t : State} (h : Later s t)
    (hs : s.heap.functions[r.index]? = some f) : t.heap.function r = f := by
  induction h with
  | refl s => rw [Heap.function, Array.getD_eq_getD_getElem?, hs, Option.getD_some]
  | run hp _ ih => exact ih (hp.function_eq hs)
  | names hheap _ ih => exact ih (by rwa [hheap])

end NoteShell.Script
