import NoteShell.Host.NoteContext
import NoteShell.Proofs.Execution.Discipline
import NoteShell.Proofs.Json.Sound

/-!
# Steps that keep heaps sound

Actions on the world that keep heaps sound, and steps all of whose actions do so as long as the
values they go on with are sound. They are the steps that obey the discipline of sound values.

## Main definitions

* `State.Sound`, `Env.Sound` : sound states and surroundings.
* `Work.Keeps`, `Run.Keeps` : actions that keep heaps and states sound, and what is known of their
  results.
* `Evaluation.Safe`, `Execution.Safe` : steps that keep states sound.
* `soundness` : the discipline of sound values.

## Main results

* `evaluation_safe_iff`, `execution_safe_iff` : safe steps are those that obey the discipline.
-/

namespace NoteShell.Script

open NoteShell.Grammar

variable {α : Type} {bounded : Bool} {A : α → Prop}

/-! ### Surroundings -/

/-- The objects that the host has shared are sound. -/
structure NoteContext.Sound (bounded : Bool) (note : NoteContext) : Prop where
  frontmatter : Json.SoundMembers bounded note.frontmatter
  context : Json.SoundMembers bounded note.context

theorem sound_emptyNote : NoteContext.Sound bounded .empty :=
  ⟨Json.soundMembers_nil, Json.soundMembers_nil⟩

/-- The path of the note is a text of its context. -/
theorem NoteContext.Sound.notePath {note : NoteContext} (hnote : NoteContext.Sound bounded note) :
    Within bounded note.notePath.length := by
  rw [NoteContext.notePath]
  cases htext : (Json.find? "notePath" note.context).bind Json.asText? with
  | none => exact fun _ => Nat.zero_le _
  | some s =>
    obtain ⟨j, hj, hs⟩ := Option.bind_eq_some_iff.mp htext
    cases hnote.context.find? hj with
    | str hsize =>
      cases hs
      exact hsize
    | _ => cases hs

/-- Where sizes matter, the names that commands can use are not too many and not too long. -/
structure Registry.Sound (bounded : Bool) (registry : Registry) : Prop where
  objects : Within bounded (availableObjects registry).length
  names : ∀ name ∈ availableObjects registry, Within bounded name.length

/-- The shared context and the skills are sound. -/
structure Env.Sound (bounded : Bool) (env : Env) : Prop where
  note : NoteContext.Sound bounded env.note
  registry : Registry.Sound bounded env.registry

/-! ### Actions -/

/-- All arguments of a call are sound. -/
structure CallArgs.Sound (bounded : Bool) (args : CallArgs) : Prop where
  positional : ∀ v ∈ args.positional, v.Sound bounded
  keyword : ∀ e ∈ args.keyword, e.2.Sound bounded

/-- An action keeps heaps sound, and its results satisfy `A`. -/
def Work.Keeps (bounded : Bool) (A : α → Prop) (x : Work α) : Prop :=
  ∀ w : World, w.heap.Sound bounded → (x w).2.heap.Sound bounded ∧ Ensures A (x w).1

/-- All values of a state are sound. -/
structure State.Sound (bounded : Bool) (s : State) : Prop where
  heap : s.heap.Sound bounded
  globals : ∀ e ∈ s.globals, e.2.Sound bounded
  locals : ∀ frame ∈ s.frames, ∀ e ∈ frame.locals, e.2.Sound bounded

/-- An action keeps states sound, and its results satisfy `A`. -/
def Run.Keeps (bounded : Bool) (A : α → Prop) (x : Run α) : Prop :=
  ∀ s : State, s.Sound bounded → (x s).2.Sound bounded ∧ ∀ a, (x s).1 = .ok a → A a

/-- Calls with sound arguments keep states sound and give sound values. -/
def Caller.Keeps (bounded : Bool) (call : Caller) : Prop :=
  ∀ r args, args.Sound bounded → (call r args).Keeps bounded (·.Sound bounded)

/-- A known outcome of an action that keeps states sound. -/
theorem Run.Keeps.of_eq {x : Run α} (hx : x.Keeps bounded A) {s t : State} {result : Except Halt α}
    (hs : s.Sound bounded) (heq : x s = (result, t)) :
    t.Sound bounded ∧ ∀ a, result = .ok a → A a := by
  have hkeeps := hx s hs
  rwa [heq] at hkeeps

/-! ### Steps -/

/-- What a name can mean: a sound value, or the builtin function of this name. -/
def Means (bounded : Bool) (name : String) (v : Value) : Prop :=
  v.Sound bounded ∨ ∃ b, Builtin.ofName? name = some b ∧ v = .builtin b

/-- What names are changed to is sound. -/
def NameChange.Sound (bounded : Bool) : NameChange → Prop
  | .store _ v => v.Sound bounded
  | .unbind _ | .declareGlobal _ => True

/-- The actions in an evaluation keep heaps sound as long as their values are sound, and the result
satisfies `A`. -/
def Evaluation.Safe (bounded : Bool) (A : α → Prop) : Evaluation α → Prop
  | .done a => A a
  | .work x next => ∃ B, x.Keeps bounded B ∧ ∀ b, B b → (next b).Safe bounded A
  | .lookup name next => ∀ v, Means bounded name v → (next v).Safe bounded A
  | .call _ args next =>
    args.Sound bounded ∧ ∀ v : Value, v.Sound bounded → (next v).Safe bounded A

/-- The evaluations in an execution are safe, and names are only bound to sound values. -/
def Execution.Safe (bounded : Bool) (A : α → Prop) : Execution α → Prop
  | .done a => A a
  | .outOfRounds => True
  | .eval x next => ∃ B, x.Safe bounded B ∧ ∀ b, B b → (next b).Safe bounded A
  | .change c next => c.Sound bounded ∧ next.Safe bounded A

theorem Execution.safe_lift {x : Evaluation α} (hx : x.Safe bounded A) :
    (liftM x : Execution α).Safe bounded A :=
  ⟨A, hx, fun _ ha => ha⟩

/-! ### The discipline of sound values -/

/-- Programs that go on with sound values, and whose expressions are sound. -/
def soundness (bounded : Bool) : Discipline where
  value := Value.Sound bounded
  key key := Within bounded key.length
  entries := SoundEntries bounded
  heap := Heap.Sound bounded
  means := Means bounded
  expr := Expr.Sound bounded
  stmt := Stmt.Holds (Expr.Sound bounded)
  runsOut := True

theorem sound_iff {s : State} : s.Sound bounded ↔ s.Obeys (soundness bounded) :=
  ⟨fun hs => ⟨hs.heap, hs.globals, hs.locals⟩, fun hs => ⟨hs.heap, hs.globals, hs.locals⟩⟩

theorem soundArguments_iff {args : CallArgs} :
    args.Sound bounded ↔ args.Obeys (soundness bounded) :=
  ⟨fun hargs => ⟨hargs.positional, hargs.keyword⟩, fun hargs => ⟨hargs.positional, hargs.keyword⟩⟩

theorem work_keeps_iff {x : Work α} : x.Keeps bounded A ↔ x.Obeys (soundness bounded) A := Iff.rfl

/-- Loops may use up their rounds in safe steps. -/
theorem run_keeps_iff {x : Run α} : x.Keeps bounded A ↔ x.Obeys (soundness bounded) A := by
  constructor
  · intro hx s hs
    obtain ⟨ht, hresult⟩ := hx s (sound_iff.mpr hs)
    exact ⟨sound_iff.mp ht, fun _ => trivial, hresult⟩
  · intro hx s hs
    obtain ⟨ht, -, hresult⟩ := hx s (sound_iff.mp hs)
    exact ⟨sound_iff.mpr ht, hresult⟩

theorem caller_keeps_iff {call : Caller} : call.Keeps bounded ↔ call.Obeys (soundness bounded) :=
  ⟨fun hcall r args _ hargs => run_keeps_iff.mp (hcall r args (soundArguments_iff.mpr hargs)),
    fun hcall r args hargs =>
      run_keeps_iff.mpr (hcall r args (sound_function r) (soundArguments_iff.mp hargs))⟩

theorem nameChange_sound_iff {c : NameChange} : c.Sound bounded ↔ c.Obeys (soundness bounded) := by
  cases c <;> rfl

/-- Safe evaluations are those that obey the discipline, since all functions are sound values. -/
theorem evaluation_safe_iff {x : Evaluation α} :
    x.Safe bounded A ↔ x.Obeys (soundness bounded) A := by
  induction x with
  | done a => rfl
  | work y more ih =>
    exact exists_congr fun B => and_congr work_keeps_iff (forall₂_congr fun b _ => ih b)
  | lookup name more ih => exact forall₂_congr fun v _ => ih v
  | call r args more ih =>
    have hargs : args.Sound bounded ↔ args.Obeys (soundness bounded) := soundArguments_iff
    have hrest := and_congr hargs (forall₂_congr fun (v : Value) (_ : v.Sound bounded) => ih v)
    exact hrest.trans ⟨fun h => ⟨sound_function r, h⟩, fun h => h.2⟩

theorem execution_safe_iff {x : Execution α} :
    x.Safe bounded A ↔ x.Obeys (soundness bounded) A := by
  induction x with
  | done a => rfl
  | outOfRounds => rfl
  | eval y more ih =>
    exact exists_congr fun B => and_congr evaluation_safe_iff (forall₂_congr fun b _ => ih b)
  | change c next ih => exact and_congr nameChange_sound_iff ih

end NoteShell.Script
