import NoteShell.Proofs.Execution.Binding
import NoteShell.Proofs.Execution.ControlFlow
import NoteShell.Proofs.Execution.Functions

/-!
# Definitions and calls

The execution of a definition evaluates the defaults and makes a function of them. Whenever the
function is called later, its arguments either fit its parameters or they do not. The body is run
only if they do, in a frame that binds every parameter and nothing else.

## Main definitions

* `EvaluatesDefaults` : the defaults of a definition with their values.

## Main results

* `of_run_define` : what a definition does.
* `calls_bind_arguments` : what a call of a function does with its arguments.
-/

namespace NoteShell.Script

open NoteShell.Grammar NoteShell.Grammar.Parser

/-! ### The execution of a definition -/

/-- The defaults of some parameters are evaluated in order, from one state to another. -/
inductive EvaluatesDefaults (env : Env) (call : Caller) :
    List Param → State → List (String × Option Value) → State → Prop
  | nil {s} : EvaluatesDefaults env call [] s [] s
  | required {name params s ps t} (h : EvaluatesDefaults env call params s ps t) :
    EvaluatesDefaults env call (⟨name, none⟩ :: params) s ((name, none) :: ps) t
  | default {name e params s v u ps t} (he : (evalExpr env e).run env call s = (.ok v, u))
    (h : EvaluatesDefaults env call params u ps t) :
    EvaluatesDefaults env call (⟨name, some e⟩ :: params) s ((name, some v) :: ps) t

variable {env : Env} {call : Caller} {s t : State}

theorem EvaluatesDefaults.names {params : List Param} {ps : List (String × Option Value)}
    (h : EvaluatesDefaults env call params s ps t) : ps.map (·.1) = params.map (·.name) := by
  induction h with
  | nil => rfl
  | required _ ih | default _ _ ih => rw [List.map_cons, List.map_cons, ih]

theorem evaluatesDefaults_of_run {params : List Param} {ps : List (String × Option Value)}
    (hrun : (evalParams env params).run env call s = (.ok ps, t)) :
    EvaluatesDefaults env call params s ps t := by
  induction params generalizing s ps with
  | nil =>
    cases hrun
    exact .nil
  | cons param params ih =>
    obtain ⟨name, default?⟩ := param
    rw [evalParams, Execution.run_bind, Execution.run_lift] at hrun
    obtain ⟨v?, u, hdefault, hrun⟩ := Run.bind_eq_ok hrun
    rw [Execution.run_bind] at hrun
    obtain ⟨rest, t', hrest, hrun⟩ := Run.bind_eq_ok hrun
    cases hrun
    cases default? with
    | none =>
      cases hdefault
      exact .required (ih hrest)
    | some e =>
      rw [evalOption, Evaluation.run_bind] at hdefault
      obtain ⟨v, u', he, hdefault⟩ := Run.bind_eq_ok hdefault
      cases hdefault
      exact .default he (ih hrest)

/-- A name that has been assigned to is bound to the value, in the innermost call or globally. -/
theorem bound?_changeNames_set (name : String) (v : Value) (s : State) :
    (s.changeNames name (Entries.set name v)).bound? name = some v := by
  obtain ⟨globals, frames, heap, host⟩ := s
  cases frames with
  | nil => exact Entries.get?_set_self name v globals
  | cons frame rest =>
    rw [State.changeNames]
    split_ifs with hdeclared
    · have hframe : State.frameOf? ⟨Entries.set name v globals, frame :: rest, heap, host⟩
        name = none :=
        if_pos hdeclared
      rw [State.bound?, hframe]
      exact Entries.get?_set_self name v globals
    · have hget := Entries.get?_set_self name v frame.locals
      generalize Entries.set name v frame.locals = locals at hget ⊢
      have hframe : State.frameOf? ⟨globals, { frame with locals := locals } :: rest, heap, host⟩
          name =
          some { frame with locals := locals } := if_neg hdeclared
      rw [State.bound?, hframe]
      exact congrArg (Option.or · _) hget

/-- A definition evaluates the defaults, makes a function of them and binds its name to the
function. -/
theorem of_run_define {name : String} {params : List Param} {body : List Stmt} {flow : Flow}
    (hrun : (execStmt env (.define name params body)).run env call s = (.ok flow, t)) :
    ∃ ps u r, EvaluatesDefaults env call params s ps u ∧ t.bound? name = some (.function r) ∧
      t.heap.functions[r.index]? = some ⟨name, ps, body⟩ := by
  rw [execStmt, Execution.run_bind] at hrun
  obtain ⟨ps, u, hparams, hmake⟩ := Run.bind_eq_ok hrun
  rw [Execution.run_bind, Execution.run_liftWork] at hmake
  obtain ⟨v, x, hfunction, hbind⟩ := Run.bind_eq_ok hmake
  rw [Execution.run_bind, Execution.store, Execution.run_change] at hbind
  obtain ⟨_, y, hstore, hend⟩ := Run.bind_eq_ok hbind
  cases hend
  obtain ⟨_, z, hstore, hend⟩ := Run.bind_eq_ok hstore
  cases hend
  cases state_of_store hstore
  cases hfunction
  refine ⟨ps, u, ⟨u.heap.functions.size⟩, evaluatesDefaults_of_run hparams,
    bound?_changeNames_set name _ _, ?_⟩
  rw [heap_changeNames]
  exact Array.getElem?_push_size

/-! ### Calls -/

/-- The parameters of a function that is defined in a parsed program have different names. -/
theorem nodup_of_parseProgram {source : String} {stmts : List Stmt}
    (hparse : parseProgram source = .ok stmts) {stmt : Stmt} (hstmt : stmt ∈ stmts)
    {path : List Enclosure} {name : String} {params : List Param} {body : List Stmt}
    (hdefine : stmt.Encloses path (.define name params body)) : (params.map (·.name)).Nodup := by
  cases (formed_of_parseProgram hparse stmt hstmt).along hdefine with
  | simple hsimple => cases hsimple
  | define _ hnames _ => exact hnames

/-- A call that fails at once passes no other points. -/
theorem Reaches.eq_of_bindArguments_error {α β : Type} {depth : Nat} {callee? : Option Function}
    {r : FunctionRef} {args : CallArgs} {e : EvalError}
    (he : bindArguments (s.heap.function r) args = .error e)
    {more : Value → Evaluation α} {next : α → Execution β} {p : RunPoint}
    (h : Reaches env depth callee? (.eval (.call r args more) next) s p) :
    p = ⟨depth, callee?, none, s⟩ := by
  cases h with
  | here => rfl
  | enter hargs _ => cases he.symm.trans hargs
  | leave hcall _ =>
    cases depth with
    | zero => cases hcall
    | succ depth => cases (callFunction_of_error he).symm.trans hcall

/-- How arguments are bound. A function that is defined in a parsed program is called, at any time
after its definition has been executed, with arguments that are given by position and by different
names. If they fit its parameters, the body is run in a new frame that binds these and has declared
no name global. Otherwise the call fails where it stands. The defaults are the values that were
found when the definition was executed. -/
theorem calls_bind_arguments {source : String} {stmts : List Stmt}
    (hparse : parseProgram source = .ok stmts) {stmt : Stmt} (hstmt : stmt ∈ stmts)
    {path : List Enclosure} {name : String} {params : List Param} {body : List Stmt}
    (hdefine : stmt.Encloses path (.define name params body)) {flow : Flow}
    (hrun : (execStmt env (.define name params body)).run env call s = (.ok flow, t)) :
    ∃ (ps : List (String × Option Value)) (u : State) (r : FunctionRef),
      EvaluatesDefaults env call params s ps u ∧ t.bound? name = some (.function r) ∧
      ∀ x, Later t x → ∀ args : CallArgs, (Entries.keys args.keyword).Nodup →
        -- the arguments are bound just where they fit
        ((∃ frame, bindArguments (x.heap.function r) args = .ok frame) ↔ args.Fit ps) ∧
        -- the frame in which the body is run
        (∀ frame, bindArguments (x.heap.function r) args = .ok frame →
          args.Binds ps frame.locals ∧ frame.declared = [] ∧
          ∀ env' depth, callFunction env' (depth + 1) r args x =
            match (execBlock env' body).run env' (callFunction env' depth) (x.enter frame) with
            | (.ok flow, y) => (.ok flow.result, y.leave)
            | (.error stop, y) => (.error stop, y.leave)) ∧
        -- a call that fails, which passes no point inside of a new frame
        ∀ e, bindArguments (x.heap.function r) args = .error e → ∀ env' depth,
          callFunction env' (depth + 1) r args x = (.error (.error e), x) ∧
          ∀ {α β : Type} callee? (more : Value → Evaluation α) (next : α → Execution β) p,
            Reaches env' depth callee? (.eval (.call r args more) next) x p →
              p = ⟨depth, callee?, none, x⟩ := by
  obtain ⟨ps, u, r, hdefaults, hbound, hfunction⟩ := of_run_define hrun
  refine ⟨ps, u, r, hdefaults, hbound, fun x hx args hkeyword => ?_⟩
  have hnames : (ps.map (·.1)).Nodup := by
    rw [hdefaults.names]
    exact nodup_of_parseProgram hparse hstmt hdefine
  have heq : x.heap.function r = ⟨name, ps, body⟩ := hx.function_eq hfunction
  have hok (frame : Frame) : bindArguments (x.heap.function r) args = .ok frame ↔
      args.Fit ps ∧ frame = ⟨boundNames (callSlots ps args), []⟩ := by
    rw [heq]
    exact bindArguments_eq_ok_iff hnames hkeyword
  refine ⟨?_, fun frame hframe => ?_, fun e he env' depth => ⟨callFunction_of_error he, ?_⟩⟩
  · simp only [hok, exists_and_left, exists_eq, and_true]
  · obtain ⟨hfit, rfl⟩ := (hok frame).mp hframe
    refine ⟨binds_boundNames hnames hkeyword hfit, rfl, fun env' depth => ?_⟩
    obtain rfl : (x.heap.function r).body = body := congrArg Function.body heq
    exact callFunction_of_ok hframe
  · intro α β callee? more next p hp
    exact hp.eq_of_bindArguments_error he

/-- A program that defines a function with a default. -/
def defaultSource : String := "def f(a, b=n):\n    return b\n"

/-- The definition in `defaultSource`. -/
def defaultDefinition : Stmt :=
  .define "f" [⟨"a", none⟩, ⟨"b", some (.name "n")⟩] [.returnValue (some (.name "b"))]

/-- The names in a program of the form of `defaultSource`. -/
def defaultNames? : Except SourceError (List Stmt) → Option (List String)
  | .ok [.define f [⟨a, none⟩, ⟨b, some (.name n)⟩] [.returnValue (some (.name c))]] =>
    some [f, a, b, n, c]
  | _ => none

/-- In `defaultSource` the default is what `n` is when the function is defined. An argument cannot
be given both by position and by name. -/
theorem calls_bind_arguments_default :
    let env : Env := ⟨.empty coreNames, .empty, 1, .merging⟩
    let s : State := ⟨[("n", .int 1)], [], .empty, Host.ofFiles .empty⟩
    ∃ t r, (execStmt env defaultDefinition).run env (callHere env s) s = (.ok .normal, t) ∧
      t.bound? "f" = some (.function r) ∧
      ∀ x, Later t x →
        (∃ frame, bindArguments (x.heap.function r) ⟨[.int 5], []⟩ = .ok frame ∧
          frame.locals.get? "a" = some (.int 5) ∧ frame.locals.get? "b" = some (.int 1)) ∧
        ∃ e, callFunction env 1 r ⟨[.int 5], [("a", .int 6)]⟩ x = (.error (.error e), x) := by
  intro env s
  have hparse : parseProgram defaultSource = .ok [defaultDefinition] := by
    have hnames : defaultNames? (parseProgram defaultSource) = some ["f", "a", "b", "n", "b"] := by
      decide +kernel
    generalize parseProgram defaultSource = result at hnames ⊢
    unfold defaultNames? at hnames
    split at hnames <;> cases hnames
    rfl
  obtain ⟨t, hrun⟩ : ∃ t, (execStmt env defaultDefinition).run env (callHere env s) s =
    (.ok .normal, t) := ⟨_, rfl⟩
  obtain ⟨ps, u, r, hdefaults, hbound, hcalls⟩ :=
    calls_bind_arguments hparse List.mem_cons_self (.self _) hrun
  have hps : ps = [("a", none), ("b", some (.int 1))] := by
    have hn : (evalExpr env (.name "n")).run env (callHere env s) s = (.ok (.int 1), s) := rfl
    obtain ⟨⟩ | ⟨_ | _ | ⟨he, ⟨⟩⟩⟩ := hdefaults
    cases hn.symm.trans he
    rfl
  refine ⟨t, r, hrun, hbound, fun x hx => ⟨?_, ?_⟩⟩
  · obtain ⟨hok, hframe, -⟩ := hcalls x hx ⟨[.int 5], []⟩ List.nodup_nil
    obtain ⟨frame, hbind⟩ := hok.mpr (by
      rw [hps]
      refine ⟨by decide, by simp, fun i p hp hdefault => ?_⟩
      match i with
      | 0 => exact .inl Nat.one_pos
      | 1 =>
        cases hp
        cases hdefault
      | i + 2 => cases hp)
    obtain ⟨hbinds, -⟩ := hframe frame hbind
    rw [hps] at hbinds
    exact ⟨frame, hbind, hbinds.positional 0 _ _ rfl rfl,
      hbinds.default 1 _ _ rfl (Nat.le_refl 1) (by simp [Entries.keys]) rfl⟩
  · obtain ⟨hok, -, herror⟩ := hcalls x hx ⟨[.int 5], [("a", .int 6)]⟩ (by simp [Entries.keys])
    cases hbind : bindArguments (x.heap.function r) ⟨[.int 5], [("a", .int 6)]⟩ with
    | error e => exact ⟨e, (herror e hbind env 0).1⟩
    | ok frame =>
      obtain ⟨i, p, hi, hp, hname⟩ := (hok.mp ⟨frame, hbind⟩).keyword ("a", .int 6) (by simp)
      rw [hps] at hp
      match i with
      | 1 =>
        cases hp
        exact absurd hname (by decide)
      | i + 2 => cases hp

end NoteShell.Script
