import NoteShell.Proofs.Execution.PrimitiveCalls
import NoteShell.Proofs.Execution.Safety

/-!
# Programs keep heaps sound

The steps of every expression and statement are safe, where sizes matter of those only that make no
text or list without checking its size. A program therefore keeps states sound, at every point and
inside all calls.

## Main results

* `soundness_primitives` : the primitive effects on sound values.
* `soundness_lawful` : operations on sound values give sound values.
* `safe_evalExpr`, `safe_execBlock` : the steps of expressions and statements are safe.
* `keeps_callFunction` : calls keep states sound.
* `Reaches.sound` : every point of a run that begins in a sound state is sound.
-/

namespace NoteShell.Script

open NoteShell.Grammar

variable {bounded : Bool} {env : Env}

/-! ### The discipline of sound values -/

/-- The checks keep texts and lists short enough where sizes matter, and where they do not, a value
may stand for an operation without a check. -/
theorem soundness_primitives (bounded : Bool) :
    (soundness bounded).Primitives (Within bounded) fun _ => True where
  smaller := Within.mono
  checked := within_of_le
  number := sound_of_isNumber
  none := sound_none
  text := sound_str
  range := sound_range
  type _ := fun _ => ⟨trivial, trivial⟩
  builtin hb := within_of_unchecked fun hbounded => (hb hbounded).2
  strMethod hm := ⟨fun hb => (hm hb).1, within_of_unchecked fun hb => (hm hb).2⟩
  listMethod _ := sound_list _
  dictMethod hm := ⟨sound_dict _, within_of_unchecked fun hb => (hm hb).2⟩
  key := Iff.rfl
  noEntries := soundEntries_nil
  entry hes he := hes.entries _ he
  set hes hk hv := hes.set hk hv
  erase k hes := hes.erase k
  items hh _ := ⟨(hh.items _).size, (hh.items _).values⟩
  entries hh _ := hh.entries _
  newList hh hitems := ⟨sound_list _, hh.newList ⟨hitems.size, hitems.values⟩⟩
  newDict hh hes := ⟨sound_dict _, hh.newDict hes⟩
  updateList hh _ _ hf := hh.updateList ⟨hf.size, hf.values⟩
  updateDict hh _ _ hf := hh.updateDict hf

/-- The values of sound documents are sound. The keys of an object are distinct, since they stand in
order. -/
theorem soundness_documents (bounded : Bool) :
    (soundness bounded).Documents (Within bounded) (Json.Sound bounded) where
  text := by
    rintro s (_ | _ | _ | _ | hs)
    exact hs
  items := by
    rintro items (_ | _ | _ | _ | _ | ⟨hsize, hitems⟩)
    exact ⟨hsize, hitems⟩
  members hj m hm := ((Json.sound_obj.mp hj).members m hm).2
  entries := by
    intro members es hj hkeys hvalues
    obtain ⟨horder, hmembers⟩ := Json.sound_obj.mp hj
    refine ⟨hkeys ▸ horder.imp fun {_ _} hlt => String.ne_of_lt hlt, fun e he => ⟨?_, hvalues e he⟩⟩
    have hkey : e.1 ∈ es.keys := List.mem_map_of_mem he
    rw [hkeys] at hkey
    obtain ⟨m, hm, heq⟩ := List.mem_map.mp hkey
    exact heq ▸ (hmembers m hm).1

theorem Env.Sound.fits (henv : env.Sound bounded) :
    env.Fits (Within bounded) (Json.Sound bounded) where
  frontmatter := Json.sound_obj.mpr henv.note.frontmatter
  context := Json.sound_obj.mpr henv.note.context
  notePath := henv.note.notePath
  objects := henv.registry.objects
  names := henv.registry.names

/-- A method of a sound value, where sizes matter one that checks them. -/
theorem ensures_methodOf {v : Value} (hv : v.Sound bounded) {target : Expr} {name : String}
    (he : (Expr.member target name).Sound bounded) :
    Ensures (·.Sound bounded) (methodOf v name) := by
  intro m hm
  rcases methodOf_eq_ok hm with ⟨s, method, rfl, hmethod, rfl⟩ | ⟨r, method, rfl, -, rfl⟩ |
    ⟨r, method, rfl, hmethod, rfl⟩
  · exact fun hb => ⟨(hv hb).1, (he hb).1.1 method hmethod⟩
  · exact fun _ => ⟨trivial, trivial⟩
  · exact fun hb => ⟨trivial, (he hb).1.2 method hmethod⟩

/-- A name means a sound value, where sizes matter no builtin function that does not check them. -/
theorem sound_of_means {n : String} (hn : (Expr.name n).Sound bounded) {v : Value}
    (hv : Means bounded n v) : v.Sound bounded := by
  rcases hv with hv | ⟨b, hb, rfl⟩
  · exact hv
  · exact fun hbounded => ⟨trivial, (hn hbounded).1 b hb⟩

/-- Programs whose expressions are sound. What an operator works on may be any builtin function, and
no fields are filled into texts where sizes matter. -/
theorem soundness_programs (bounded : Bool) :
    (soundness bounded).Programs (Within bounded) where
  bound := .inl
  builtinName hb := .inr ⟨_, hb, rfl⟩
  skillName _ := .inl fun _ => ⟨trivial, trivial⟩
  operand _ r _ := sound_list r
  text he hb := (he hb).2
  formatted he _ hb := (he hb).1.elim
  display he hb := (he hb).2
  name he hv := sound_of_means he hv
  method he hv := ensures_methodOf hv he
  newFunction hps hbodies hh := ⟨sound_function _, hh.newFunction ⟨hps, hbodies⟩⟩
  defaults hh _ := (hh.function _).defaults
  body hh _ := (hh.function _).body
  exprs hs := (Stmt.holds_iff.mp hs).1
  bodies hs := (Stmt.holds_iff.mp hs).2
  loops _ := trivial

/-- Operations on sound values give sound values. -/
theorem soundness_lawful (henv : env.Sound bounded) : (soundness bounded).Lawful env :=
  (soundness_primitives bounded).lawful (soundness_documents bounded) henv.fits
    (soundness_programs bounded)

/-! ### Programs -/

/-- A run of safe steps keeps states sound, if calls do. -/
theorem Evaluation.Safe.run {α : Type} {A : α → Prop} {call : Caller} (henv : env.Sound bounded)
    (hcall : call.Keeps bounded) {x : Evaluation α} (hx : x.Safe bounded A) :
    (x.run env call).Keeps bounded A :=
  run_keeps_iff.mpr ((evaluation_safe_iff.mp hx).run (soundness_lawful henv).toLooksUp
    (caller_keeps_iff.mp hcall))

/-- The evaluation of an expression is safe and gives a sound value. -/
def SafeExpr (bounded : Bool) (env : Env) (e : Expr) : Prop :=
  (evalExpr env e).Safe bounded (·.Sound bounded)

/-- The evaluation of a sound expression is safe. -/
theorem safe_evalExpr (henv : env.Sound bounded) (e : Expr) (he : e.Holds (Expr.Sound bounded)) :
    SafeExpr bounded env e :=
  evaluation_safe_iff.mpr (obeys_evalExpr (soundness_lawful henv) e he)

theorem SafeExpr.lift {e : Expr} (he : SafeExpr bounded env e) :
    (liftM (evalExpr env e) : Execution Value).Safe bounded (·.Sound bounded) :=
  Execution.safe_lift he

/-- The execution of statements in which all expressions are sound is safe. -/
theorem safe_execBlock (henv : env.Sound bounded) {stmts : List Stmt}
    (hstmts : ∀ s ∈ stmts, s.Holds (Expr.Sound bounded)) :
    (execBlock env stmts).Safe bounded (Flow.Obeys (soundness bounded)) :=
  execution_safe_iff.mpr (obeys_execBlock (soundness_lawful henv) hstmts)

/-- Calls keep states sound, since the bodies of the functions in a sound heap are sound. -/
theorem keeps_callFunction (henv : env.Sound bounded) (depth : Nat) :
    (callFunction env depth).Keeps bounded :=
  caller_keeps_iff.mpr (obeys_callFunction (soundness_lawful henv) depth)

/-- Every point of a safe run that begins in a sound state is sound. -/
theorem Reaches.sound (henv : env.Sound bounded) {depth : Nat} {callee? : Option Function}
    {α : Type} {A : α → Prop} {x : Execution α} {s : State} {p : RunPoint}
    (h : Reaches env depth callee? x s p) (hx : x.Safe bounded A) (hs : s.Sound bounded) :
    p.state.Sound bounded :=
  sound_iff.mpr (h.obeys (soundness_lawful henv) (execution_safe_iff.mp hx) (sound_iff.mp hs))

/-- An expression that is evaluated at any point keeps states sound and gives a sound value. -/
theorem keeps_evaluate (henv : env.Sound bounded) {e : Expr} (he : e.Holds (Expr.Sound bounded)) :
    (evaluate env e).Keeps bounded (·.Sound bounded) :=
  fun s hs => (safe_evalExpr henv e he).run henv (keeps_callFunction henv _) s hs

theorem keeps_runProgram (henv : env.Sound bounded) {stmts : List Stmt}
    (hstmts : ∀ s ∈ stmts, s.Holds (Expr.Sound bounded)) :
    (runProgram env stmts).Keeps bounded fun _ => True := by
  intro s hs
  have hrun := obeys_runProgram (soundness_lawful henv) hstmts s s (sound_iff.mp hs)
  rw [runProgram_state]
  exact ⟨sound_iff.mpr hrun.1, fun _ _ => trivial⟩

end NoteShell.Script
