import NoteShell.Script.Sequence
import NoteShell.Script.Steps

/-!
# Control flow

How a statement ends, and the two kinds of loops. A loop over items goes through those that there
were when it began, and computes the terms of a range one by one. A loop with a test stops early
when it has used up its rounds.
-/

namespace NoteShell.Script

/-- How a statement ends when it does not fail. -/
inductive Flow where
  | normal
  | breakLoop
  | continueLoop
  | returned (v : Value)

/-- What a loop does after a round of its body: `none` means another round. -/
def Flow.afterRound : Flow → Option Flow
  | .normal => none
  | .continueLoop => none
  | .breakLoop => some .normal
  | .returned v => some (.returned v)

/-- The body as long as the test holds, for a number of rounds at most. -/
def whileRounds (test : Execution Bool) (body : Execution Flow) : (rounds : Nat) → Execution Flow
  | 0 => .outOfRounds
  | rounds + 1 => do
    if ← test then
      match (← body).afterRound with
      | some flow => return flow
      | none => whileRounds test body rounds
    else
      return .normal

/-- The items that a loop has not come to yet. -/
inductive LoopItems where
  | range (iter : RangeIter)
  | items (rest : List Value)

namespace LoopItems

/-- The items that a loop over a value goes through. -/
def ofValue (v : Value) (h : Heap) : Except EvalError LoopItems :=
  match v with
  | .range r => .ok (.range (.ofRange r))
  | v => do
    let items ← itemsOf h v
    return .items items.toList

/-- The next item, if there is one, and those after it. -/
def advance : LoopItems → Option Value × LoopItems
  | .range iter =>
    let (i, iter) := iter.advance
    (i.map .int, .range iter)
  | .items [] => (none, .items [])
  | .items (v :: rest) => (some v, .items rest)

/-- How far it is to the end. -/
def distance : LoopItems → Nat
  | .range iter => iter.distance
  | .items rest => rest.length

theorem distance_advance {items rest : LoopItems} {v : Value} (h : items.advance = (some v, rest)) :
    rest.distance < items.distance := by
  cases items with
  | range iter =>
    cases hiter : iter.advance with
    | mk i iter' =>
      rw [advance, hiter] at h
      cases i with
      | none => cases h
      | some i =>
        cases h
        exact RangeIter.distance_advance hiter
  | items items =>
    cases items with
    | nil => cases h
    | cons w items =>
      cases h
      exact Nat.lt_succ_self _

end LoopItems

/-- The body for one item after the other, after binding each of them. -/
def forRounds (bind : Value → Execution Unit) (body : Execution Flow) (items : LoopItems) :
    Execution Flow :=
  match hadvance : items.advance with
  | (none, _) => return .normal
  | (some v, rest) => do
    have := LoopItems.distance_advance hadvance
    bind v
    match (← body).afterRound with
    | some flow => return flow
    | none => forRounds bind body rest
termination_by items.distance

end NoteShell.Script
