import NoteShell.Proofs.Execution.Run

/-!
# Rounds of loops over items

How often a loop over items runs its body. What the loop goes through is fixed when it begins, and
so the body cannot make the loop longer or shorter by changing the list or dict from which the items
came.

## Main definitions

* `LoopItems.toList` : the items that a loop goes through.
* `forEach` : a loop as the rounds for a list of items.
* `Loops` : the number of times that a loop runs its body, and how it ends.

## Main results

* `forRounds_eq_forEach` : a loop that takes one item after the other runs its body for all of them.
* `Loops.rounds_le` : a loop makes at most as many rounds as items are left.
* `run_forLoop_forEach` : a statement with a loop over items runs its body for each of them in
  order.
-/

namespace NoteShell.Script

open NoteShell.Grammar

namespace LoopItems

/-- The items that a loop has not come to yet, in order. -/
def toList : LoopItems → List Value
  | .range iter => (iter.collect []).map .int
  | .items rest => rest

variable {items rest : LoopItems} {v : Value}

theorem toList_of_advance (h : items.advance = (some v, rest)) :
    items.toList = v :: rest.toList := by
  cases items with
  | range iter =>
    cases hiter : iter.advance with
    | mk i iter' =>
      rw [advance, hiter] at h
      cases i with
      | none => cases h
      | some i =>
        cases h
        rw [toList, RangeIter.collect_of_advance hiter, RangeIter.collect_eq_append]
        rfl
  | items items =>
    cases items with
    | nil => cases h
    | cons w items =>
      cases h
      rfl

theorem toList_of_end (h : items.advance = (none, rest)) : items.toList = [] := by
  cases items with
  | range iter =>
    have hiter : iter.advance.1 = none := Option.map_eq_none_iff.mp (congrArg Prod.fst h)
    rw [toList, RangeIter.collect_of_end hiter]
    rfl
  | items items =>
    cases items with
    | nil => rfl
    | cons w items => cases h

end LoopItems

/-- The body for each of some items in order, after binding the item. -/
def forEach (bind : Value → Execution Unit) (body : Execution Flow) : List Value → Execution Flow
  | [] => return .normal
  | v :: rest => do
    bind v
    match (← body).afterRound with
    | some flow => return flow
    | none => forEach bind body rest

/-- A loop that takes one item after the other runs its body for all of them in order. -/
theorem forRounds_eq_forEach (bind : Value → Execution Unit) (body : Execution Flow)
    (items : LoopItems) : forRounds bind body items = forEach bind body items.toList := by
  fun_induction forRounds bind body items with
  | case1 items rest hadvance =>
    rw [LoopItems.toList_of_end hadvance]
    rfl
  | case2 items v rest hadvance _ ih =>
    rewrite [LoopItems.toList_of_advance hadvance, forEach, ih]
    rfl

/-- A loop over some items ends after its body has been run `rounds` times. -/
inductive Loops (env : Env) (call : Caller) (bind : Value → Execution Unit) (body : Execution Flow) :
    List Value → State → (rounds : Nat) → Except Halt Flow → State → Prop
  | finished {s} : Loops env call bind body [] s 0 (.ok .normal) s
  | unbound {v rest s t stop} (hbind : (bind v).run env call s = (.error stop, t)) :
    Loops env call bind body (v :: rest) s 0 (.error stop) t
  | failed {v rest s t u stop} (hbind : (bind v).run env call s = (.ok (), t))
    (hbody : body.run env call t = (.error stop, u)) :
    Loops env call bind body (v :: rest) s 1 (.error stop) u
  | stopped {v rest s t u flow next} (hbind : (bind v).run env call s = (.ok (), t))
    (hbody : body.run env call t = (.ok flow, u)) (hflow : flow.afterRound = some next) :
    Loops env call bind body (v :: rest) s 1 (.ok next) u
  | round {v rest s t u w flow rounds result} (hbind : (bind v).run env call s = (.ok (), t))
    (hbody : body.run env call t = (.ok flow, u)) (hflow : flow.afterRound = none)
    (h : Loops env call bind body rest u rounds result w) :
    Loops env call bind body (v :: rest) s (rounds + 1) result w

variable {env : Env} {call : Caller} {bind : Value → Execution Unit} {body : Execution Flow}
  {items : List Value} {s t : State}

/-- A loop makes at most as many rounds as items are left. -/
theorem Loops.rounds_le {rounds : Nat} {result : Except Halt Flow}
    (h : Loops env call bind body items s rounds result t) : rounds ≤ items.length := by
  induction h with
  | finished | unbound => exact Nat.zero_le _
  | failed | stopped => exact Nat.succ_le_succ (Nat.zero_le _)
  | round _ _ _ _ ih => exact Nat.succ_le_succ ih

/-- The rounds of a loop, by induction on the items that are left. -/
theorem exists_loops (env : Env) (call : Caller) (bind : Value → Execution Unit)
    (body : Execution Flow) (items : List Value) (s : State) :
    ∃ rounds result t, Loops env call bind body items s rounds result t ∧
      (forEach bind body items).run env call s = (result, t) := by
  induction items generalizing s with
  | nil => exact ⟨0, _, s, .finished, rfl⟩
  | cons v items ih =>
    rw [forEach, Execution.run_bind]
    rcases hbind : (bind v).run env call s with ⟨stop | ⟨⟩, t⟩
    · exact ⟨0, _, t, .unbound hbind, Run.bind_of_error hbind⟩
    · rw [Run.bind_of_ok hbind, Execution.run_bind]
      rcases hbody : body.run env call t with ⟨stop | flow, u⟩
      · exact ⟨1, _, u, .failed hbind hbody, Run.bind_of_error hbody⟩
      · rw [Run.bind_of_ok hbody]
        cases hflow : flow.afterRound with
        | some next => exact ⟨1, _, u, .stopped hbind hbody hflow, rfl⟩
        | none =>
          obtain ⟨rounds, result, w, hloops, hrun⟩ := ih u
          exact ⟨_, result, w, .round hbind hbody hflow hloops, hrun⟩

/-- A statement with a loop over a value runs its body for each item of the value in order. -/
theorem run_forLoop_forEach {names : List String} {iterable : Expr} {stmts : List Stmt} {v : Value}
    {items : LoopItems} (hv : (evalExpr env iterable).run env call s = (.ok v, t))
    (hitems : LoopItems.ofValue v t.heap = .ok items) :
    (execStmt env (.forLoop names iterable stmts)).run env call s =
      (forEach (bindLoopNames names) (execBlock env stmts) items.toList).run env call t := by
  have hread := Run.readHeap_apply (LoopItems.ofValue v) t
  rw [hitems] at hread
  rw [execStmt, Execution.run_bind, Execution.run_lift, Run.bind_of_ok hv, Execution.run_bind,
    Execution.run_liftWork, Run.bind_of_ok hread, forRounds_eq_forEach]

end NoteShell.Script
