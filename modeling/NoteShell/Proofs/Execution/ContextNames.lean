import NoteShell.Proofs.Execution.Binding
import NoteShell.Proofs.Execution.Names
import NoteShell.Proofs.Execution.Reach

/-!
# Bindings of the names of the shared context

The names of the shared context cannot be assigned to, so that no step of a program changes what
they are bound to. A call, however, binds the parameters of its function whatever they are called.
At every point of a run a name of the shared context therefore shows the context, unless a parameter
of the innermost call has taken it.

## Main definitions

* `State.contextBindings` : what the names of the shared context are bound to.
* `RunPoint.Shadows` : a parameter of the innermost call hides a name of the shared context.

## Main results

* `contextBindings_stable` : no step changes a binding of a name of the shared context.
* `Reaches.lookup_contextName` : what such a name means at a point of a run.
-/

namespace NoteShell.Script

variable {α : Type} {env : Env}

/-- What the names of the shared context are bound to, globally and in each frame. -/
def State.contextBindings (s : State) :
    (ContextName → Option Value) × List (ContextName → Option Value) :=
  (fun c => Entries.get? c.name s.globals,
    s.frames.map fun frame c => Entries.get? c.name frame.locals)

theorem ofName?_name (c : ContextName) : ContextName.ofName? c.name = some c := by
  cases c <;> decide

theorem contextBindings_changeNames {name : String} {f : Entries → Entries}
    (hname : ContextName.ofName? name = none)
    (hf : ∀ k ≠ name, ∀ es, Entries.get? k (f es) = Entries.get? k es) (s : State) :
    (s.changeNames name f).contextBindings = s.contextBindings := by
  have hne (c : ContextName) : c.name ≠ name := by
    rintro rfl
    rw [ofName?_name] at hname
    cases hname
  have hget (es : Entries) :
      (fun c : ContextName => Entries.get? c.name (f es)) = fun c => Entries.get? c.name es :=
    funext fun c => hf _ (hne c) es
  obtain ⟨globals, frames, heap, host⟩ := s
  cases frames with
  | nil => simp only [State.changeNames, State.contextBindings, hget]
  | cons frame rest =>
    rw [State.changeNames]
    split_ifs <;> simp only [State.contextBindings, List.map_cons, hget]

theorem contextBindings_declare (names : List String) (s : State) :
    (s.declare names).contextBindings = s.contextBindings := by
  obtain ⟨globals, frames, heap, host⟩ := s
  cases frames <;> rfl

/-- No step of a program changes a binding of a name of the shared context. -/
theorem contextBindings_stable :
    Stable fun s t : State => t.contextBindings = s.contextBindings where
  trans h h' := h'.trans h
  world hglobals hframes := by rw [State.contextBindings, State.contextBindings, hglobals, hframes]
  change c s := by
    rcases c.run_cases s with ⟨stop, h⟩ | ⟨name, f, h, hname, hf⟩ | ⟨names, -, h⟩ <;> rw [h]
    · exact contextBindings_changeNames hname hf s
    · exact contextBindings_declare names s
  call frame s t h := by
    obtain ⟨hglobals, hframes⟩ := Prod.mk.inj h
    refine Prod.ext hglobals ?_
    have htail := congrArg List.tail hframes
    rwa [← List.map_tail, ← List.map_tail] at htail

/-! ### Points -/

/-- A parameter of the innermost call has the name, and the call has not declared it global. -/
def RunPoint.Shadows (p : RunPoint) (c : ContextName) : Prop :=
  (∃ f, p.callee? = some f ∧ c.name ∈ f.params.map (·.1)) ∧ (p.state.frameOf? c.name).isSome = true

/-- No name of the shared context is bound globally, and in the innermost call exactly those are
bound that are parameters of its function. -/
def BindsParameters (callee? : Option Function) (s : State) : Prop :=
  (∀ c, s.contextBindings.1 c = none) ∧
    match callee? with
    | none => s.contextBindings.2 = []
    | some f => ∃ locals rest, s.contextBindings.2 = locals :: rest ∧
        ∀ c : ContextName, (locals c).isSome = true ↔ c.name ∈ f.params.map (·.1)

theorem Reaches.bindsParameters {depth : Nat} {callee? : Option Function} {x : Execution α}
    {s : State} {p : RunPoint} (h : Reaches env depth callee? x s p)
    (hs : BindsParameters callee? s) :
    BindsParameters p.callee? p.state := by
  refine h.holds contextBindings_stable (I := fun _ callee? s => BindsParameters callee? s) ?_ ?_ hs
  · intro depth callee? s t hs ht
    unfold BindsParameters at hs ⊢
    rwa [ht]
  · intro depth c s f args frame hs hargs
    exact ⟨hs.1, _, _, rfl, fun c => get?_locals_isSome_iff hargs c.name⟩

/-- In the innermost call a name of the shared context belongs to the call, unless it was declared
global there. -/
theorem BindsParameters.frame_cases {callee? : Option Function} {s : State} (c : ContextName)
    (h : BindsParameters callee? s) :
    s.frameOf? c.name = none ∨ ∃ f frame, callee? = some f ∧ s.frameOf? c.name = some frame ∧
      ((Entries.get? c.name frame.locals).isSome = true ↔ c.name ∈ f.params.map (·.1)) := by
  obtain ⟨-, hlocals⟩ := h
  cases callee? with
  | none =>
    have hnil : s.frames = [] := List.map_eq_nil_iff.mp hlocals
    exact .inl (by rw [State.frameOf?, hnil])
  | some f =>
    obtain ⟨locals, rest, hcons, hparams⟩ := hlocals
    obtain ⟨frame, frames', hframes, rfl, -⟩ := List.map_eq_cons_iff.mp hcons
    by_cases hdeclared : frame.declared.contains c.name = true
    · exact .inl (by simp only [State.frameOf?, hframes, if_pos hdeclared])
    · refine .inr ⟨f, frame, rfl, ?_, hparams c⟩
      simp only [State.frameOf?, hframes, if_neg hdeclared]

/-- What a name of the shared context means at a point of a run that began outside of all calls: the
shared context, unless a parameter shadows it, and then the argument of the call. -/
theorem Reaches.lookup_contextName {depth : Nat} {x : Execution α} {s : State} {p : RunPoint}
    (h : Reaches env depth none x s p) (hs : BindsParameters none s) (c : ContextName) :
    (¬ p.Shadows c → Script.lookup env c.name p.state =
      Run.onWorld (Work.perform (contextValue env.note c)) p.state) ∧
    (p.Shadows c → ∃ frame v, p.state.frameOf? c.name = some frame ∧
      Entries.get? c.name frame.locals = some v ∧
      Script.lookup env c.name p.state = (.ok v, p.state)) := by
  have hp := h.bindsParameters hs
  have hglobal : Entries.get? c.name p.state.globals = none := hp.1 c
  have hambient : ambientValue env c.name = Work.perform (contextValue env.note c) := by
    rw [ambientValue, ofName?_name]
  rw [lookup_apply, hambient, State.bound?, hglobal]
  rcases hp.frame_cases c with hframe | ⟨f, frame, hf, hframe, hiff⟩
  · refine ⟨fun _ => by rw [hframe], fun ⟨_, hsome⟩ => ?_⟩
    rw [hframe] at hsome
    cases hsome
  · rw [hframe]
    cases hget : Entries.get? c.name frame.locals with
    | none =>
      refine ⟨fun _ => by simp only [hget, Option.or_none], fun ⟨⟨g, hg, hmem⟩, _⟩ => ?_⟩
      obtain rfl := Option.some.inj (hf.symm.trans hg)
      rw [← hiff, hget] at hmem
      cases hmem
    | some v =>
      refine ⟨fun hnot => absurd ⟨⟨f, hf, ?_⟩, ?_⟩ hnot,
        fun _ => ⟨frame, v, rfl, hget, by simp only [hget, Option.or_none]⟩⟩
      · rw [← hiff, hget]
        rfl
      · rw [hframe]
        rfl

end NoteShell.Script
