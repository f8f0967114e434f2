import NoteShell.Host.Basic
import NoteShell.Script.Effect
import NoteShell.Script.SortPlan
import NoteShell.Skill.Registry

/-!
# The state of a running program

A program acts on the global names, the local names of the calls it is in, the heap and the host. An
action gives a value or stops early: with an error, because a loop has used up its rounds, or in a
crash. In each case the state it has reached is kept. Most actions leave all names alone: they act
only on the heap and the host, which make up the world.

## Main definitions

* `State` : what a program acts on.
* `Env` : what stays the same while a command runs.
* `Work` : actions on the world.
* `Run` : actions of a program.
-/

namespace NoteShell.Script

/-- The local names of a call. -/
structure Frame where
  locals : Entries
  /-- The names that the call has declared global. -/
  declared : List String

/-- What a program acts on. -/
structure State where
  globals : Entries
  /-- The calls that are being made, the innermost first. -/
  frames : List Frame
  heap : Heap
  host : Host

/-- The part of a state that has no names in it. -/
structure World where
  heap : Heap
  host : Host

/-- The surroundings of a command. -/
structure Env where
  registry : Registry
  note : NoteContext
  /-- The number of rounds that a loop with a test may make. -/
  rounds : Nat
  /-- How long lists are sorted. -/
  sorter : Sorter

/-- Why an action has stopped early. -/
inductive Halt where
  | error (e : EvalError)
  | outOfRounds
  | crash

/-- What stops an action on the world stops a program. -/
def Failure.halt : Failure → Halt
  | .error e => .error e
  | .crash => .crash

/-- Actions on the world. -/
abbrev Work := ExceptT Failure (StateM World)

namespace Work

/-- Stop with an error. -/
def fail {α : Type} (e : EvalError) : Work α := throw (.error e)

/-- Go on with a result that does not depend on the world. -/
def ofResult {α : Type} : Except EvalError α → Work α
  | .ok a => pure a
  | .error e => fail e

/-- Take steps on the heap. -/
def onHeap {α : Type} (op : HeapM α) : Work α := fun ⟨heap, host⟩ =>
  let (result, heap) := op heap
  (result, ⟨heap, host⟩)

/-- Look at the heap. -/
def readHeap {α : Type} (f : Heap → Except EvalError α) : Work α :=
  onHeap (HeapM.reading fun h => f h)

/-- Make a value. -/
def perform (effect : Effect) : Work Value := onHeap (HeapM.perform effect)

/-- Act on the host. -/
def onHost (f : Host → Except Failure Unit × Host) : Work Unit := fun ⟨heap, host⟩ =>
  let (result, host) := f host
  (result, ⟨heap, host⟩)

/-- Write a message to the host. -/
def log (message : String) : Work Unit := onHost fun host => (.ok (), host.log message)

end Work

/-- Actions of a program. -/
abbrev Run := ExceptT Halt (StateM State)

namespace Run

/-- Stop with an error. -/
def fail {α : Type} (e : EvalError) : Run α := throw (.error e)

/-- Act on the world. -/
def onWorld {α : Type} (x : Work α) : Run α := fun ⟨globals, frames, heap, host⟩ =>
  match x ⟨heap, host⟩ with
  | (.ok a, ⟨heap, host⟩) => (.ok a, ⟨globals, frames, heap, host⟩)
  | (.error failure, ⟨heap, host⟩) => (.error failure.halt, ⟨globals, frames, heap, host⟩)

/-- Run an action inside a new call, which is left whatever comes of the action. -/
def inFrame {α : Type} (frame : Frame) (body : Run α) : Run α :=
  fun ⟨globals, frames, heap, host⟩ =>
    match body ⟨globals, frame :: frames, heap, host⟩ with
    | (result, ⟨globals, frames, heap, host⟩) => (result, ⟨globals, frames.tail, heap, host⟩)

end Run

end NoteShell.Script
