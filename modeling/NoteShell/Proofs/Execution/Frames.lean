import NoteShell.Proofs.Execution.Binding
import NoteShell.Proofs.Execution.Names
import NoteShell.Proofs.Execution.Reach

/-!
# The discipline of calls

Every run leaves the calls around it as they were: it ends in the call in which it began, and only
statements change the names of this call. At most 200 calls are nested. Unless names are declared
global, no expression changes the global names.

## Main definitions

* `SameCalls` : two states are in the same calls, up to the innermost one.
* `NeverDeclares` : no names are declared global in a run.

## Main results

* `frames_of_evaluation` : an expression leaves all frames as they are.
* `sameCalls_of_execution` : statements change the innermost frame only.
* `Reaches.depth_eq` : no point of a run has more than 200 frames.
* `frame_discipline` : all of it, for expressions and programs.
-/

namespace NoteShell.Script

open NoteShell.Grammar

variable {α : Type} {env : Env}

/-! ### Frames -/

/-- Two states are in the same calls, up to the names of the innermost one. -/
def SameCalls (s t : State) : Prop :=
  t.frames.length = s.frames.length ∧ t.frames.tail = s.frames.tail

theorem sameCalls_changeNames (name : String) (f : Entries → Entries) (s : State) :
    SameCalls s (s.changeNames name f) := by
  obtain ⟨globals, frames, heap, host⟩ := s
  cases frames with
  | nil => exact ⟨rfl, rfl⟩
  | cons frame rest =>
    rw [State.changeNames]
    split_ifs <;> exact ⟨rfl, rfl⟩

theorem sameCalls_declare (names : List String) (s : State) : SameCalls s (s.declare names) := by
  obtain ⟨globals, frames, heap, host⟩ := s
  cases frames <;> exact ⟨rfl, rfl⟩

/-- After a call the frames are those before it. -/
theorem frames_of_sameCalls {frame : Frame} {s t : State} (h : SameCalls (s.enter frame) t) :
    t.leave.frames = s.frames := h.2

theorem sameCalls_stable : Stable SameCalls where
  trans h h' := ⟨h'.1.trans h.1, h'.2.trans h.2⟩
  world _ h := ⟨congrArg List.length h, congrArg List.tail h⟩
  change c s := by
    rcases c.run_cases s with ⟨stop, h⟩ | ⟨name, f, h, -, -⟩ | ⟨names, -, h⟩ <;> rw [h]
    · exact ⟨rfl, rfl⟩
    · exact sameCalls_changeNames name f s
    · exact sameCalls_declare names s
  call frame s t h := by
    rw [SameCalls, frames_of_sameCalls h]
    exact ⟨rfl, rfl⟩

/-- A call leaves all frames as they are. -/
theorem frames_of_call (env : Env) (depth : Nat) (r : FunctionRef) (args : CallArgs) (s : State) :
    (callFunction env depth r args s).2.frames = s.frames := by
  cases depth with
  | zero => rfl
  | succ depth =>
    cases hbind : bindArguments (s.heap.function r) args with
    | error e => rw [callFunction_of_error hbind]
    | ok frame =>
      have hbody := sameCalls_stable.run_execution env (sameCalls_stable.run_call env depth)
        (execBlock env (s.heap.function r).body) (s.enter frame)
      rw [callFunction_of_ok hbind]
      rcases hrun : (execBlock env (s.heap.function r).body).run env (callFunction env depth)
        (s.enter frame) with ⟨stop | flow, t⟩ <;> rw [hrun] at hbody <;>
        exact frames_of_sameCalls hbody

/-- An expression leaves all frames as they are. -/
theorem frames_of_evaluation (env : Env) (depth : Nat) (x : Evaluation α) (s : State) :
    (x.run env (callFunction env depth) s).2.frames = s.frames := by
  have hpassive : Passive fun s t : State => t.frames = s.frames :=
    ⟨fun h h' => h'.trans h, fun _ h => h⟩
  exact hpassive.run_evaluation env (frames_of_call env depth) x s

/-- Statements leave all frames as they are but for the innermost one. -/
theorem sameCalls_of_execution (env : Env) (depth : Nat) (x : Execution α) (s : State) :
    SameCalls s (x.run env (callFunction env depth) s).2 :=
  sameCalls_stable.run_execution env (sameCalls_stable.run_call env depth) x s

/-! ### The depth of calls -/

/-- At every point as many calls may still be nested as are missing to the limit. -/
theorem Reaches.depth_eq {callee? : Option Function} {x : Execution α} {s : State} {p : RunPoint}
    (h : Reaches env (maxCallDepth - s.frames.length) callee? x s p) :
    p.depth = maxCallDepth - p.state.frames.length ∧
      p.state.frames.length ≤ max maxCallDepth s.frames.length := by
  refine h.holds sameCalls_stable (I := fun depth _ t => depth = maxCallDepth - t.frames.length ∧
    t.frames.length ≤ max maxCallDepth s.frames.length) ?_ ?_ ⟨rfl, Nat.le_max_right _ _⟩
  · rintro depth c t u ⟨hdepth, hle⟩ htu
    rw [htu.1]
    exact ⟨hdepth, hle⟩
  · rintro depth c t f args frame ⟨hdepth, hle⟩ -
    change depth = maxCallDepth - (t.frames.length + 1) ∧
      t.frames.length + 1 ≤ max maxCallDepth s.frames.length
    omega

/-! ### Global names -/

/-- No point of a run comes before a declaration of global names. -/
def NeverDeclares (env : Env) (depth : Nat) (callee? : Option Function) (x : Execution α)
    (s : State) : Prop :=
  ∀ p, Reaches env depth callee? x s p → ∀ names, p.change? ≠ some (.declareGlobal names)

namespace NeverDeclares

variable {β γ : Type} {depth : Nat} {callee? : Option Function} {s t : State} {v : Value}

theorem done (a : α) : NeverDeclares env depth callee? (.done a) s := by
  rintro p (_ | _)
  rintro names ⟨⟩

theorem evaluated {a : α} {next : α → Execution β}
    (h : NeverDeclares env depth callee? (next a) s) :
    NeverDeclares env depth callee? (.eval (.done a) next) s := by
  rintro p (_ | hp)
  · rintro names ⟨⟩
  · exact h p hp

theorem lookup {name : String} {more : Value → Evaluation α} {next : α → Execution β}
    (hname : Script.lookup env name s = (.ok v, t))
    (h : NeverDeclares env depth callee? (.eval (more v) next) t) :
    NeverDeclares env depth callee? (.eval (.lookup name more) next) s := by
  rintro p hp
  cases hp with
  | here => rintro names ⟨⟩
  | lookup hname' hp =>
    cases hname.symm.trans hname'
    exact h p hp

theorem call {r : FunctionRef} {args : CallArgs} {frame : Frame} {more : Value → Evaluation α}
    {next : α → Execution β} (hargs : bindArguments (s.heap.function r) args = .ok frame)
    (hbody : NeverDeclares env depth (some (s.heap.function r))
      (execBlock env (s.heap.function r).body) (s.enter frame))
    (hcall : callFunction env (depth + 1) r args s = (.ok v, t))
    (h : NeverDeclares env (depth + 1) callee? (.eval (more v) next) t) :
    NeverDeclares env (depth + 1) callee? (.eval (.call r args more) next) s := by
  rintro p hp
  cases hp with
  | here => rintro names ⟨⟩
  | enter hargs' hp =>
    cases hargs.symm.trans hargs'
    exact hbody p hp
  | leave hcall' hp =>
    cases hcall.symm.trans hcall'
    exact h p hp

theorem store {name : String} {next : Execution α}
    (hc : (NameChange.store name v).run s = (.ok (), t))
    (h : NeverDeclares env depth callee? next t) :
    NeverDeclares env depth callee? (.change (.store name v) next) s := by
  rintro p hp
  cases hp with
  | here => rintro names ⟨⟩
  | change hc' hp =>
    cases hc.symm.trans hc'
    exact h p hp

end NeverDeclares

/-- The innermost frame has declared no name global. -/
def NoneDeclared (s : State) : Prop := ∃ frame rest, s.frames = frame :: rest ∧ frame.declared = []

/-- In a frame that has declared no name global, names are changed in the frame. -/
theorem changeNames_of_noneDeclared (name : String) (f : Entries → Entries) {s : State}
    (h : NoneDeclared s) :
    (s.changeNames name f).globals = s.globals ∧ NoneDeclared (s.changeNames name f) := by
  obtain ⟨globals, frames, heap, host⟩ := s
  obtain ⟨frame, rest, rfl, hdeclared⟩ := h
  have hnot : ¬ frame.declared.contains name = true := by simp [hdeclared]
  rw [State.changeNames, if_neg hnot]
  exact ⟨rfl, _, rest, rfl, hdeclared⟩

/-- The global names are left alone by the calls of a given depth in which no names are declared
global. -/
def CallsKeepGlobals (env : Env) (depth : Nat) : Prop :=
  ∀ (r : FunctionRef) (args : CallArgs) (s : State),
    (∀ d frame, depth = d + 1 → bindArguments (s.heap.function r) args = .ok frame →
      NeverDeclares env d (some (s.heap.function r)) (execBlock env (s.heap.function r).body)
        (s.enter frame)) →
    (callFunction env depth r args s).2.globals = s.globals

/-- An expression in which no names are declared global leaves the global names alone, if the calls
in it do. -/
theorem globals_of_evaluation {β : Type} {depth : Nat} (hcalls : CallsKeepGlobals env depth)
    {callee? : Option Function} (x : Evaluation α) {next : α → Execution β} {s : State}
    (h : NeverDeclares env depth callee? (.eval x next) s) :
    (x.run env (callFunction env depth) s).2.globals = s.globals ∧
      ∀ a t, x.run env (callFunction env depth) s = (.ok a, t) →
        NeverDeclares env depth callee? (next a) t := by
  induction x generalizing s with
  | done a =>
    refine ⟨rfl, ?_⟩
    intro b t heq
    rw [Evaluation.run] at heq
    cases heq
    exact fun p hp => h p (.done hp)
  | work y more ih =>
    have hnames := (Run.onWorld_names y s).1
    rw [Evaluation.run]
    rcases hrun : Run.onWorld y s with ⟨stop | b, t⟩ <;> rw [hrun] at hnames
    · refine ⟨hnames, ?_⟩
      rintro a u ⟨⟩
    · obtain ⟨hglobals, hnext⟩ := ih b fun p hp => h p (.work hrun hp)
      exact ⟨hglobals.trans hnames, hnext⟩
  | lookup name more ih =>
    have hpassive : Passive fun s t : State => t.globals = s.globals :=
      ⟨fun h h' => h'.trans h, fun h _ => h⟩
    have hnames := hpassive.lookup env name s
    rw [Evaluation.run]
    rcases hrun : Script.lookup env name s with ⟨stop | v, t⟩ <;> rw [hrun] at hnames
    · refine ⟨hnames, ?_⟩
      rintro a u ⟨⟩
    · obtain ⟨hglobals, hnext⟩ := ih v fun p hp => h p (.lookup hrun hp)
      exact ⟨hglobals.trans hnames, hnext⟩
  | call r args more ih =>
    have hnames := hcalls r args s fun d frame hd hbind p hp => h p (by
      subst hd
      exact .enter hbind hp)
    rw [Evaluation.run]
    rcases hrun : callFunction env depth r args s with ⟨stop | v, t⟩ <;> rw [hrun] at hnames
    · refine ⟨hnames, ?_⟩
      rintro a u ⟨⟩
    · obtain ⟨hglobals, hnext⟩ := ih v fun p hp => h p (.leave hrun hp)
      exact ⟨hglobals.trans hnames, hnext⟩

/-- Statements in a call in which no names are declared global leave the global names alone. -/
theorem globals_of_execution {depth : Nat} (hcalls : CallsKeepGlobals env depth)
    {callee? : Option Function} (x : Execution α) {s : State} (hs : NoneDeclared s)
    (h : NeverDeclares env depth callee? x s) :
    (x.run env (callFunction env depth) s).2.globals = s.globals := by
  induction x generalizing s with
  | done a => rfl
  | outOfRounds => rfl
  | eval x next ih =>
    obtain ⟨hglobals, hnext⟩ := globals_of_evaluation hcalls x h
    have hframes := frames_of_evaluation env depth x s
    rw [Execution.run]
    rcases hrun : x.run env (callFunction env depth) s with ⟨stop | b, t⟩ <;>
      rw [hrun] at hglobals hframes
    · exact hglobals
    · have ht : NoneDeclared t := by
        obtain ⟨frame, rest, hframe, hdeclared⟩ := hs
        exact ⟨frame, rest, hframes.trans hframe, hdeclared⟩
      exact (ih b ht (hnext b t hrun)).trans hglobals
  | change c next ih =>
    rw [Execution.run]
    rcases c.run_cases s with ⟨stop, hrun⟩ | ⟨name, f, hrun, -, -⟩ | ⟨names, rfl, -⟩
    · rw [hrun]
    · obtain ⟨hglobals, ht⟩ := changeNames_of_noneDeclared name f hs
      rw [hrun]
      exact (ih ht fun p hp => h p (.change hrun hp)).trans hglobals
    · exact absurd rfl (h _ (.here _ s) names)

/-- Calls in which no names are declared global leave the global names alone. -/
theorem callsKeepGlobals (env : Env) (depth : Nat) : CallsKeepGlobals env depth := by
  induction depth with
  | zero => exact fun r args s _ => rfl
  | succ depth ih =>
    intro r args s h
    cases hbind : bindArguments (s.heap.function r) args with
    | error e => rw [callFunction_of_error hbind]
    | ok frame =>
      have hs : NoneDeclared (s.enter frame) :=
        ⟨frame, s.frames, rfl, declared_of_bindArguments hbind⟩
      have hbody := globals_of_execution ih _ hs (h depth frame rfl hbind)
      rw [callFunction_of_ok hbind]
      rcases hrun : (execBlock env (s.heap.function r).body).run env (callFunction env depth)
        (s.enter frame) with ⟨stop | flow, t⟩ <;> rw [hrun] at hbody <;> exact hbody

/-! ### Expressions and programs -/

/-- The discipline of calls, from any state. An expression leaves all frames as they are, and a
program all but the innermost one. At every point of a run as many calls may be nested as are
missing to 200, so that no further frame is added there and a call fails at once. An expression in
which no names are declared global leaves the global names alone. -/
theorem frame_discipline (env : Env) (s : State) :
    (∀ e, (evaluate env e s).2.frames = s.frames) ∧
    (∀ stmts, (runProgram env stmts s).2.frames.length = s.frames.length ∧
      (runProgram env stmts s).2.frames.tail = s.frames.tail) ∧
    (∀ {α : Type} (callee? : Option Function) (x : Execution α) (p : RunPoint),
      Reaches env (maxCallDepth - s.frames.length) callee? x s p →
      p.depth = maxCallDepth - p.state.frames.length ∧
      p.state.frames.length ≤ max maxCallDepth s.frames.length ∧
      (maxCallDepth ≤ p.state.frames.length → ∀ r args,
        callFunction env p.depth r args p.state = (.error (.error .recursion), p.state))) ∧
    ∀ (callee? : Option Function) (e : Expr),
      NeverDeclares env (maxCallDepth - s.frames.length) callee? (.eval (evalExpr env e) .done) s →
      (evaluate env e s).2.globals = s.globals := by
  refine ⟨fun e => ?_, fun stmts => ?_, fun callee? x p h => ?_, fun callee? e h => ?_⟩
  · exact frames_of_evaluation env _ (evalExpr env e) s
  · rw [runProgram_state]
    exact sameCalls_of_execution env _ (execBlock env stmts) s
  · obtain ⟨hdepth, hle⟩ := h.depth_eq
    refine ⟨hdepth, hle, fun hlimit r args => ?_⟩
    have hzero : p.depth = 0 := by omega
    rw [hzero]
    rfl
  · exact (globals_of_evaluation (callsKeepGlobals env _) (evalExpr env e) h).1

/-- A state with a global name, and a function with a local name that is the same. -/
def localNameState : State :=
  let f : Function :=
    ⟨"f", [⟨"x", none⟩], [.assign [.name "y"] (.name "x"), .returnValue (some (.name "y"))]⟩
  ⟨[("y", .int 7), ("f", .function ⟨0⟩)], [], ⟨#[], #[], #[f]⟩, .ofFiles .empty⟩

/-- A call of a function with a local name has a frame of its own, and leaves the global name
alone. -/
theorem frame_discipline_localName :
    let env : Env := ⟨.empty coreNames, .empty, 1, .merging⟩
    let s := localNameState
    let e : Expr := .call (.name "f") [.int 1] []
    (evaluate env e s).1 = .ok (.int 1) ∧ (evaluate env e s).2.frames = s.frames ∧
      (∃ p, Reaches env 200 none (.eval (evalExpr env e) .done) s p ∧ p.state.frames.length = 1 ∧
        p.depth = maxCallDepth - p.state.frames.length) ∧
      NeverDeclares env 200 none (.eval (evalExpr env e) .done) s ∧
      (evaluate env e s).2.globals = s.globals := by
  intro env s e
  obtain ⟨hframes, -, hpoints, hglobals⟩ := frame_discipline env s
  have hnever : NeverDeclares env 200 none (.eval (evalExpr env e) .done) s :=
    .lookup rfl (.call rfl (.lookup rfl
      (.evaluated (.store rfl (.lookup rfl (.evaluated (.done _))))))
      rfl (.evaluated (.done _)))
  obtain ⟨p, hp, hlength⟩ : ∃ p, Reaches env 200 none (.eval (evalExpr env e) .done) s p ∧
      p.state.frames.length = 1 := ⟨_, .lookup rfl (.enter rfl (.of_run rfl)), rfl⟩
  exact ⟨rfl, hframes e, ⟨p, hp, hlength, (hpoints none _ p hp).1⟩, hnever, hglobals none e hnever⟩
end NoteShell.Script
