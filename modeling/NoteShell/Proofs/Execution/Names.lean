import NoteShell.Proofs.Execution.Run
import NoteShell.Proofs.Values.Entries

/-!
# Changes of names

What a change of names does to a state: it fails and leaves the state alone, or it changes what one
name is bound to, or it declares names global in the innermost call. The names of the shared context
are never changed.

## Main results

* `NameChange.run_cases` : all that a change of names can do.
* `state_of_store` : the state after an assignment.
-/

namespace NoteShell.Script

/-- The state with names declared global in the innermost call. -/
def State.declare (names : List String) (s : State) : State :=
  match s.frames with
  | [] => s
  | frame :: rest =>
    { s with frames := { frame with declared := frame.declared ++ names } :: rest }

theorem checkAssignable_of_some {name : String} {c : ContextName}
    (h : ContextName.ofName? name = some c) (s : State) :
    checkAssignable name s = (.error (.error (.type (.readOnly c))), s) := by
  rw [checkAssignable, h]
  rfl

theorem checkAssignable_of_none {name : String} (h : ContextName.ofName? name = none) (s : State) :
    checkAssignable name s = (.ok (), s) := by
  rw [checkAssignable, h]
  rfl

/-- All that a change of names can do. -/
theorem NameChange.run_cases (c : NameChange) (s : State) :
    (∃ stop, c.run s = (.error stop, s)) ∨
      (∃ name f, c.run s = (.ok (), s.changeNames name f) ∧ ContextName.ofName? name = none ∧
        ∀ k ≠ name, ∀ es, Entries.get? k (f es) = Entries.get? k es) ∨
      ∃ names, c = .declareGlobal names ∧ c.run s = (.ok (), s.declare names) := by
  cases c with
  | store name v =>
    cases hname : ContextName.ofName? name with
    | some c => exact .inl ⟨_, Run.bind_of_error (checkAssignable_of_some hname s)⟩
    | none =>
      have hstore : Script.store name v s = (.ok (), s.changeNames name (Entries.set name v)) :=
        Run.bind_of_ok (checkAssignable_of_none hname s)
      exact .inr (.inl ⟨name, _, hstore, hname, fun k hk => Entries.get?_set_of_ne hk v⟩)
  | unbind name =>
    cases hname : ContextName.ofName? name with
    | some c => exact .inl ⟨_, Run.bind_of_error (checkAssignable_of_some hname s)⟩
    | none =>
      have hunbind : Script.unbind name s =
          if (Entries.get? name (s.namesOf name)).isSome then
            (.ok (), s.changeNames name (Entries.erase name))
          else (.error (.error (.unbound name)), s) := by
        have hget : (get : Run State) s = (.ok s, s) := rfl
        rw [Script.unbind, Run.bind_of_ok (checkAssignable_of_none hname s), Run.bind_of_ok hget]
        split_ifs <;> rfl
      change (∃ stop, Script.unbind name s = _) ∨ (∃ name' f, Script.unbind name s = _ ∧ _) ∨ _
      rw [hunbind]
      split_ifs
      · exact .inr (.inl ⟨name, _, rfl, hname, fun k hk => Entries.get?_erase_of_ne hk⟩)
      · exact .inl ⟨_, rfl⟩
  | declareGlobal names =>
    refine .inr (.inr ⟨names, rfl, ?_⟩)
    obtain ⟨globals, frames, heap, host⟩ := s
    cases frames <;> rfl

/-! ### Assignments -/

section Assignments

variable {s t : State}

theorem heap_changeNames (name : String) (f : Entries → Entries) (s : State) :
    (s.changeNames name f).heap = s.heap := by
  obtain ⟨globals, frames, heap, host⟩ := s
  cases frames with
  | nil => rfl
  | cons frame rest =>
    rw [State.changeNames]
    split_ifs <;> rfl

theorem state_of_store {name : String} {v : Value} (h : Script.store name v s = (.ok (), t)) :
    t = s.changeNames name (Entries.set name v) := by
  rw [Script.store] at h
  cases hname : ContextName.ofName? name with
  | some c =>
    rw [Run.bind_of_error (checkAssignable_of_some hname s)] at h
    cases h
  | none =>
    rw [Run.bind_of_ok (checkAssignable_of_none hname s)] at h
    cases h
    rfl

end Assignments

end NoteShell.Script
