import NoteShell.Script.Error
import NoteShell.Script.Value

/-!
# Steps on the heap

An operation reads and changes the heap step by step. It gives a value, fails with an error, or
crashes, which ends the session. Whichever it does, the heap is left as the steps so far have made
it.

## Main definitions

* `Failure` : what stops a step.
* `Effect` : steps that make a value and cannot fail.
* `HeapM` : steps on the heap that may fail.
-/

namespace NoteShell.Script

/-- What stops a step. -/
inductive Failure where
  | error (e : EvalError)
  /-- The program that runs the session comes to an end. -/
  | crash

instance : MonadLift (Except EvalError) (Except Failure) where
  monadLift
    | .ok a => .ok a
    | .error e => .error (.error e)

/-- An answer, where one ever comes. -/
def orCrash {α : Type} : Option α → Except Failure α
  | some a => .ok a
  | none => .error .crash

theorem orCrash_eq_ok_iff {α : Type} {a? : Option α} {a : α} :
    orCrash a? = .ok a ↔ a? = some a := by
  cases a? <;> simp [orCrash]

/-- Steps that make a value and cannot fail: the value, and the heap afterwards. -/
abbrev Effect := Heap → Value × Heap

namespace Effect

/-- Give a value and leave the heap alone. -/
def give (v : Value) : Effect := fun h => (v, h)

/-- Make a new list. -/
def newList (items : Array Value) : Effect := fun h => h.newList items

/-- Make a new dict. -/
def newDict (entries : Entries) : Effect := fun h => h.newDict entries

end Effect

/-- Steps on the heap. -/
abbrev HeapM := ExceptT Failure (StateM Heap)

/-- Steps on the heap that give a value of the language. -/
abbrev HeapOp := HeapM Value

namespace HeapM

variable {α : Type}

/-- Stop with an error. -/
def fail (e : EvalError) : HeapM α := throw (.error e)

/-- Work something out from the heap. -/
def reading (f : Heap → Except Failure α) : HeapM α := do f (← get)

/-- Make a value. -/
def perform (effect : Effect) : HeapOp := fun h =>
  let (v, h) := effect h
  (.ok v, h)

/-- Change the items of a list. -/
def updateList (r : ListRef) (f : Array Value → Array Value) : HeapM Unit :=
  modify (·.updateList r f)

/-- Change the entries of a dict. -/
def updateDict (r : DictRef) (f : Entries → Entries) : HeapM Unit :=
  modify (·.updateDict r f)

end HeapM

end NoteShell.Script
