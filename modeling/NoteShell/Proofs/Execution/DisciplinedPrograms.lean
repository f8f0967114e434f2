import NoteShell.Proofs.Execution.Discipline
import NoteShell.Proofs.Execution.Reach
import NoteShell.Proofs.Execution.Rounds
import NoteShell.Proofs.Parsing.Parts

/-!
# Programs that obey disciplines

The steps of the expressions and statements of a lawful discipline obey it, and so do calls of its
functions. What is said once about each operation on values holds then in every state that a program
reaches.

## Main definitions

* `Discipline.Lawful` : the operations on values, one by one, obey a discipline.

## Main results

* `obeys_evalExpr`, `obeys_execBlock` : the steps of expressions and statements obey a discipline.
* `obeys_callFunction` : calls obey a discipline.
* `Reaches.obeys` : every point of a run obeys the discipline that its steps and its first state
  obey.
-/

namespace NoteShell.Script

open NoteShell.Grammar

/-- The operations on values obey a discipline, and the parts of its statements and functions are of
the discipline themselves. -/
structure Discipline.Lawful (D : Discipline) (env : Env) : Prop extends D.LooksUp env where
  number : ∀ {v : Value}, v.isNumber = true → D.value v
  none : D.value .none
  text : ∀ {s}, D.expr (.str s) → D.value (.str s)
  formatted : ∀ {pieces}, D.expr (.formatted pieces) → ∀ s, D.value (.str s)
  name : ∀ {n v}, D.expr (.name n) → D.means n v → D.value v
  method : ∀ {target n v}, D.expr (.member target n) → D.value v → Ensures D.value (methodOf v n)
  newList : ∀ {items} {vs : List Value} {h}, D.expr (.list items) → vs.length = items.length →
    (∀ v ∈ vs, D.value v) → D.heap h → (Effect.newList vs.toArray).Obeys D h
  dictKey : ∀ {v}, D.value v → Ensures D.key (dictKey v)
  noEntries : D.entries []
  set : ∀ {es key v}, D.entries es → D.key key → D.value v → D.entries (es.set key v)
  newDict : ∀ {es h}, D.entries es → D.heap h → (Effect.newDict es).Obeys D h
  items : ∀ {h v}, D.heap h → D.value v → Ensures (fun items => ∀ x ∈ items, D.value x) (itemsOf h v)
  getItem : ∀ {h container}, D.heap h → D.value container → ∀ shown index,
    Ensures D.value (getItem h shown container index)
  sliceOf : ∀ {container}, D.value container → ∀ start stop,
    (sliceOf container start stop).Obeys D D.value
  unary : ∀ op v h, Ensures D.value (unary op v h)
  binary : ∀ op {a b}, D.value a → D.value b → (binary op a b).Obeys D D.value
  updateInPlace : ∀ op {n current v}, D.means n current → D.value v →
    (updateInPlace op current v).Obeys D D.value
  setItem : ∀ {container index v}, D.value container → D.value index → D.value v →
    (setItem container index v).Obeys D fun _ => True
  deleteItem : ∀ {container}, D.value container → ∀ index,
    (deleteItem container index).Obeys D fun _ => True
  builtin : ∀ {b args}, D.value (.builtin b) → args.Obeys D → (callBuiltin env b args).Obeys D D.value
  skill : ∀ name args, (callSkill env name args).Obeys D D.value
  strMethod : ∀ {s m}, D.value (.strMethod s m) → ∀ args,
    (callStrMethod s m args).Obeys D D.value
  listMethod : ∀ {r m args}, D.value (.listMethod r m) → args.Obeys D →
    (callListMethod env.sorter r m args).Obeys D D.value
  dictMethod : ∀ {r m args}, D.value (.dictMethod r m) → args.Obeys D →
    (callDictMethod r m args).Obeys D D.value
  newFunction : ∀ {name body h} {params : List (String × Option Value)},
    (∀ p ∈ params, ∀ v ∈ p.2, D.value v) → (∀ s ∈ body, D.stmt s) → D.heap h →
      Effect.Obeys D h fun h => h.newFunction ⟨name, params, body⟩
  defaults : ∀ {h r}, D.heap h → D.value (.function r) →
    ∀ p ∈ (h.function r).params, ∀ v ∈ p.2, D.value v
  body : ∀ {h r}, D.heap h → D.value (.function r) → ∀ s ∈ (h.function r).body, D.stmt s
  exprs : ∀ {s}, D.stmt s → ∀ e ∈ s.exprs, e.Holds D.expr
  bodies : ∀ {s}, D.stmt s → ∀ t ∈ s.bodies, D.stmt t
  loops : ∀ {test body}, D.stmt (.whileLoop test body) → D.runsOut

variable {D : Discipline} {env : Env} {args : CallArgs}

/-! ### Lists of expressions -/

/-- The evaluation of an expression obeys a discipline. -/
def EvalObeys (D : Discipline) (env : Env) (e : Expr) : Prop := (evalExpr env e).Obeys D D.value

theorem obeys_evalItems {items : List Expr} (hitems : ∀ e ∈ items, EvalObeys D env e)
    {acc : List Value} (hacc : ∀ v ∈ acc, D.value v) :
    (evalItems env acc items).Obeys D fun vs =>
      vs.length = acc.length + items.length ∧ ∀ v ∈ vs, D.value v := by
  induction items generalizing acc with
  | nil => exact ⟨List.length_reverse, fun v hv => hacc v (List.mem_reverse.mp hv)⟩
  | cons e items ih =>
    rw [List.forall_mem_cons] at hitems
    rw [evalItems]
    refine hitems.1.bind fun v hv => ?_
    have hrest := ih hitems.2 (List.forall_mem_cons.mpr ⟨hv, hacc⟩)
    rw [List.length_cons, Nat.add_right_comm, Nat.add_assoc] at hrest
    exact hrest

theorem obeys_evalOption {e? : Option Expr} (he : ∀ e ∈ e?, EvalObeys D env e) :
    (evalOption env e?).Obeys D fun v? => ∀ v ∈ v?, D.value v := by
  cases e? with
  | none => exact nofun
  | some e =>
    rw [evalOption]
    refine (he e rfl).bind fun v hv => ?_
    rintro _ ⟨⟩
    exact hv

theorem obeys_evalNamed {named : List (String × Expr)}
    (hnamed : ∀ p ∈ named, EvalObeys D env p.2) {acc : List (String × Value)}
    (hacc : ∀ p ∈ acc, D.value p.2) :
    (evalNamed env acc named).Obeys D fun vs => ∀ p ∈ vs, D.value p.2 := by
  induction named generalizing acc with
  | nil => exact fun p hp => hacc p (List.mem_reverse.mp hp)
  | cons p named ih =>
    rw [List.forall_mem_cons] at hnamed
    rw [evalNamed]
    exact hnamed.1.bind fun v hv => ih hnamed.2 (List.forall_mem_cons.mpr ⟨hv, hacc⟩)

theorem obeys_evalPieces {pieces : List Piece}
    (hpieces : ∀ e ∈ pieces.filterMap Piece.value?, EvalObeys D env e) (acc : String) :
    (evalPieces env acc pieces).Obeys D fun _ => True := by
  induction pieces generalizing acc with
  | nil => trivial
  | cons piece pieces ih =>
    cases piece with
    | literal text =>
      rw [evalPieces]
      exact ih hpieces _
    | field e quoted spec =>
      obtain ⟨he, hrest⟩ := List.forall_mem_cons.mp hpieces
      rw [evalPieces]
      refine he.bind fun v _ => ?_
      refine (Evaluation.obeys_lift (Work.obeys_readHeap fun h _ => ensures_true)).bind
        fun t _ => ?_
      exact ih hrest _

theorem obeys_holds (v : Value) : (holds v).Obeys D fun _ => True :=
  Evaluation.obeys_lift (Work.obeys_readHeap fun _ _ => ensures_true)

section Lawful

variable (hD : D.Lawful env)

include hD

/-- A dict display sets one key after the other. -/
theorem obeys_evalEntries {entries : List (Expr × Expr)}
    (hkeys : ∀ p ∈ entries, EvalObeys D env p.1) (hvalues : ∀ p ∈ entries, EvalObeys D env p.2)
    {acc : Entries} (hacc : D.entries acc) :
    (evalEntries env acc entries).Obeys D D.entries := by
  induction entries generalizing acc with
  | nil => exact hacc
  | cons p entries ih =>
    rw [List.forall_mem_cons] at hkeys hvalues
    rw [evalEntries]
    refine hkeys.1.bind fun key hkey => ?_
    refine (Evaluation.obeys_lift (Work.obeys_ofResult (hD.dictKey hkey))).bind fun k hk => ?_
    exact hvalues.1.bind fun v hv => ih hkeys.2 hvalues.2 (hD.set hacc hk hv)

theorem obeys_evalLinks {links : List (Comparison × Expr)}
    (hlinks : ∀ p ∈ links, EvalObeys D env p.2) (current : Value) :
    (evalLinks env current links).Obeys D D.value := by
  induction links generalizing current with
  | nil => exact hD.number rfl
  | cons p links ih =>
    rw [List.forall_mem_cons] at hlinks
    rw [evalLinks]
    refine hlinks.1.bind fun next _ => ?_
    refine (Evaluation.obeys_lift (Work.obeys_onHeap fun h hh =>
      HeapM.obeysAt_reading hh ensures_true)).bind fun b _ => ?_
    split_ifs
    · exact ih hlinks.2 next
    · exact hD.number rfl

theorem obeys_callValue {callee : Value} (hcallee : D.value callee) (hargs : args.Obeys D) :
    (callValue env callee args).Obeys D D.value := by
  cases callee with
  | function r => exact ⟨hcallee, hargs, fun v hv => hv⟩
  | builtin b => exact Evaluation.obeys_lift (hD.builtin hcallee hargs)
  | skill name => exact Evaluation.obeys_lift (hD.skill name args)
  | strMethod s m => exact Evaluation.obeys_lift (Work.obeys_onHeap (hD.strMethod hcallee args))
  | listMethod r m => exact Evaluation.obeys_lift (Work.obeys_onHeap (hD.listMethod hcallee hargs))
  | dictMethod r m => exact Evaluation.obeys_lift (Work.obeys_onHeap (hD.dictMethod hcallee hargs))
  | _ => exact Evaluation.obeys_lift Work.obeys_fail

/-! ### Expressions -/

/-- The evaluation of an expression of a lawful discipline obeys it. -/
theorem obeys_evalExpr (e : Expr) : e.Holds D.expr → EvalObeys D env e := by
  induction e using Expr.induction with
  | step e ih =>
  intro hholds
  obtain ⟨he, hchildren⟩ := Expr.holds_iff.mp hholds
  replace ih : ∀ c ∈ e.children, EvalObeys D env c := fun c hc => ih c hc (hchildren c hc)
  rw [EvalObeys]
  have hwork {x : Work Value} (hx : x.Obeys D D.value) :
      (liftM x : Evaluation Value).Obeys D D.value := Evaluation.obeys_lift hx
  cases e with
  | none => exact hD.none
  | bool | int | float => exact hD.number rfl
  | str s => exact hD.text he
  | formatted pieces =>
    rw [evalExpr]
    exact (obeys_evalPieces ih "").bind fun text _ => hD.formatted he text
  | list items =>
    rw [evalExpr]
    refine (obeys_evalItems ih (by simp)).bind fun vs hvs =>
      hwork (Work.obeys_perform fun h hh => ?_)
    exact hD.newList he (hvs.1.trans (Nat.zero_add _)) hvs.2 hh
  | dict entries =>
    rw [evalExpr]
    have hkeys : ∀ p ∈ entries, EvalObeys D env p.1 := fun p hp =>
      ih _ (List.mem_append_left _ (List.mem_map_of_mem hp))
    have hvalues : ∀ p ∈ entries, EvalObeys D env p.2 := fun p hp =>
      ih _ (List.mem_append_right _ (List.mem_map_of_mem hp))
    refine (obeys_evalEntries hD hkeys hvalues hD.noEntries).bind fun es hes => hwork ?_
    exact Work.obeys_perform fun h hh => hD.newDict hes hh
  | name n =>
    rw [evalExpr]
    exact fun v hv => hD.name he hv
  | member target n =>
    rw [evalExpr]
    refine (ih target (by simp [Expr.children])).bind fun v hv => hwork ?_
    exact Work.obeys_ofResult (hD.method he hv)
  | index target i =>
    rw [evalExpr]
    refine (ih target (by simp [Expr.children])).bind fun container hcontainer => ?_
    refine (ih i (by simp [Expr.children])).bind fun v _ => hwork ?_
    exact Work.obeys_readHeap fun h hh => hD.getItem hh hcontainer _ v
  | slice target start stop =>
    rw [evalExpr]
    refine (ih target (by simp [Expr.children])).bind fun container hcontainer => ?_
    refine (obeys_evalOption fun e he => ih e ?_).bind fun first _ => ?_
    · rw [Option.mem_def] at he
      simp [Expr.children, he]
    refine (obeys_evalOption fun e he => ih e ?_).bind fun last _ => hwork ?_
    · rw [Option.mem_def] at he
      simp [Expr.children, he]
    exact Work.obeys_onHeap (hD.sliceOf hcontainer first last)
  | call callee args keywords =>
    rw [evalExpr]
    have hargs : ∀ a ∈ args, EvalObeys D env a := fun a ha =>
      ih a (List.mem_cons_of_mem _ (List.mem_append_left _ ha))
    have hkeywords : ∀ p ∈ keywords, EvalObeys D env p.2 := fun p hp =>
      ih p.2 (List.mem_cons_of_mem _ (List.mem_append_right _ (List.mem_map_of_mem hp)))
    refine (ih callee (by simp [Expr.children])).bind fun f hf => ?_
    refine (obeys_evalItems hargs (by simp)).bind fun positional hpositional => ?_
    refine (obeys_evalNamed hkeywords (by simp)).bind fun keyword hkeyword => ?_
    exact obeys_callValue hD hf ⟨hpositional.2, hkeyword⟩
  | unary op operand =>
    rw [evalExpr]
    refine (ih operand (by simp [Expr.children])).bind fun v _ => hwork ?_
    exact Work.obeys_readHeap fun h _ => hD.unary op v h
  | binary op left right =>
    rw [evalExpr]
    refine (ih left (by simp [Expr.children])).bind fun a ha => ?_
    refine (ih right (by simp [Expr.children])).bind fun b hb => hwork ?_
    exact Work.obeys_onHeap (hD.binary op ha hb)
  | compare first links =>
    rw [evalExpr]
    refine (ih first (by simp [Expr.children])).bind fun v _ => ?_
    refine obeys_evalLinks hD (fun p hp => ih p.2 ?_) v
    exact List.mem_cons_of_mem _ (List.mem_map_of_mem hp)
  | logic op left right =>
    rw [evalExpr]
    refine (ih left (by simp [Expr.children])).bind fun v hv => ?_
    refine (obeys_holds v).bind fun b _ => ?_
    split
    · exact ih right (by simp [Expr.children])
    · exact ih right (by simp [Expr.children])
    · exact hv
  | conditional test body otherwise =>
    rw [evalExpr]
    refine (ih test (by simp [Expr.children])).bind fun v hv => ?_
    refine (obeys_holds v).bind fun b _ => ?_
    split_ifs
    · exact ih body (by simp [Expr.children])
    · exact ih otherwise (by simp [Expr.children])

/-! ### Assignments -/

omit hD in
theorem EvalObeys.lift {e : Expr} (he : EvalObeys D env e) :
    (liftM (evalExpr env e) : Execution Value).Obeys D D.value :=
  Execution.obeys_lift he

omit hD in
/-- Steps on the heap in a statement. -/
theorem obeys_onHeap {α : Type} {A : α → Prop} {op : HeapM α} (hop : op.Obeys D A) :
    (liftM (Work.onHeap op) : Execution α).Obeys D A :=
  Execution.obeys_liftWork (Work.obeys_onHeap hop)

theorem obeys_assign {v : Value} (hv : D.value v) {target : Target}
    (htarget : ∀ e ∈ target.exprs, EvalObeys D env e) :
    (assign env v target).Obeys D fun _ => True := by
  cases target with
  | name n => exact ⟨hv, trivial⟩
  | index container index =>
    rw [assign]
    refine (htarget container (by simp [Target.exprs])).lift.bind fun c hc => ?_
    refine (htarget index (by simp [Target.exprs])).lift.bind fun i hi => ?_
    exact obeys_onHeap (hD.setItem hc hi hv)

theorem obeys_assignAll {v : Value} (hv : D.value v) {targets : List Target}
    (htargets : ∀ e ∈ targets.flatMap Target.exprs, EvalObeys D env e) :
    (assignAll env v targets).Obeys D fun _ => True := by
  induction targets with
  | nil => trivial
  | cons target targets ih =>
    rw [List.flatMap_cons, List.forall_mem_append] at htargets
    rw [assignAll]
    exact (obeys_assign hD hv htargets.1).bind fun _ _ => ih htargets.2

theorem obeys_update {op : BinaryOp} {target : Target} {e : Expr}
    (htarget : ∀ e ∈ target.exprs, EvalObeys D env e) (he : EvalObeys D env e) :
    (update env op target e).Obeys D fun _ => True := by
  cases target with
  | name n =>
    rw [update]
    have hcurrent : (Evaluation.lookup n .done).Obeys D (D.means n) := fun _ hv => hv
    refine (Execution.obeys_lift hcurrent).bind fun current hmeans => he.lift.bind fun v hv => ?_
    exact (obeys_onHeap (hD.updateInPlace op hmeans hv)).bind fun w hw => ⟨hw, trivial⟩
  | index container index =>
    rw [update]
    refine (htarget container (by simp [Target.exprs])).lift.bind fun c hc => ?_
    refine (htarget index (by simp [Target.exprs])).lift.bind fun i hi => ?_
    refine (Execution.obeys_liftWork
      (Work.obeys_readHeap fun h hh => hD.getItem hh hc _ i)).bind fun current hcurrent => ?_
    refine he.lift.bind fun v hv => ?_
    have hmeans : D.means "" current := hD.bound hcurrent
    refine (obeys_onHeap (hD.updateInPlace op hmeans hv)).bind fun w hw => ?_
    exact obeys_onHeap (hD.setItem hc hi hw)

theorem obeys_delete {target : Target} (htarget : ∀ e ∈ target.exprs, EvalObeys D env e) :
    (delete env target).Obeys D fun _ => True := by
  cases target with
  | name n => exact ⟨trivial, trivial⟩
  | index container index =>
    rw [delete]
    refine (htarget container (by simp [Target.exprs])).lift.bind fun c hc => ?_
    refine (htarget index (by simp [Target.exprs])).lift.bind fun i _ => ?_
    exact obeys_onHeap (hD.deleteItem hc i)

theorem obeys_deleteAll {targets : List Target}
    (htargets : ∀ e ∈ targets.flatMap Target.exprs, EvalObeys D env e) :
    (deleteAll env targets).Obeys D fun _ => True := by
  induction targets with
  | nil => trivial
  | cons target targets ih =>
    rw [List.flatMap_cons, List.forall_mem_append] at htargets
    rw [deleteAll]
    exact (obeys_delete hD htargets.1).bind fun _ _ => ih htargets.2

/-- The parts of a value that is bound to several names are its items. -/
theorem value_unpack {h : Heap} (hh : D.heap h) (count : Nat) {v : Value} (hv : D.value v) :
    Ensures (fun parts => ∀ w ∈ parts, D.value w) (unpack count v h) := by
  have hparts {parts : Array Value} (hvalues : ∀ w ∈ parts, D.value w) :
      Ensures (fun parts => ∀ w ∈ parts, D.value w) (do
        if parts.size < count then
          throw (.value (.tooFewToUnpack count parts.size))
        if count < parts.size then
          throw (.value (.tooManyToUnpack count))
        return parts.toList : Except EvalError (List Value)) := by
    refine ensures_ite (fun _ => ensures_error) fun _ => ?_
    refine ensures_ite (fun _ => ensures_error) fun _ => ensures_ok fun w hw => ?_
    exact hvalues w (Array.mem_toList_iff.mp hw)
  unfold unpack
  split
  · exact (hD.items hh hv).bind fun parts => hparts
  · exact (hD.items hh hv).bind fun parts => hparts
  · exact ensures_error

omit hD in
theorem obeys_storeAll {bindings : List (String × Value)}
    (hbindings : ∀ p ∈ bindings, D.value p.2) :
    (storeAll bindings).Obeys D fun _ => True := by
  induction bindings with
  | nil => trivial
  | cons p bindings ih =>
    rw [List.forall_mem_cons] at hbindings
    exact ⟨hbindings.1, ih hbindings.2⟩

theorem obeys_bindLoopNames (names : List String) {item : Value} (hitem : D.value item) :
    (bindLoopNames names item).Obeys D fun _ => True := by
  unfold bindLoopNames
  split
  · exact ⟨hitem, trivial⟩
  · refine (Execution.obeys_liftWork
      (Work.obeys_readHeap fun h hh => value_unpack hD hh _ hitem)).bind fun parts hparts => ?_
    exact obeys_storeAll fun p hp => hparts p.2 (List.of_mem_zip hp).2

omit hD in
theorem obeys_evalParams {params : List Param}
    (hparams : ∀ e ∈ params.filterMap Param.default?, EvalObeys D env e) :
    (evalParams env params).Obeys D fun ps => ∀ p ∈ ps, ∀ v ∈ p.2, D.value v := by
  induction params with
  | nil => exact fun p hp => absurd hp List.not_mem_nil
  | cons param params ih =>
    have hhead : ∀ e ∈ param.default?, EvalObeys D env e := fun e he =>
      hparams e (List.mem_filterMap.mpr ⟨param, List.mem_cons_self, he⟩)
    have htail : ∀ e ∈ params.filterMap Param.default?, EvalObeys D env e := by
      intro e he
      obtain ⟨q, hq, he⟩ := List.mem_filterMap.mp he
      exact hparams e (List.mem_filterMap.mpr ⟨q, List.mem_cons_of_mem _ hq, he⟩)
    rw [evalParams]
    refine (Execution.obeys_lift (obeys_evalOption hhead)).bind fun default? hdefault => ?_
    exact (ih htail).bind fun ps hps => List.forall_mem_cons.mpr ⟨hdefault, hps⟩

/-! ### Statements -/

omit hD

/-- A value that is returned is one of a discipline. -/
def Flow.Obeys (D : Discipline) : Flow → Prop
  | .returned v => D.value v
  | .normal | .breakLoop | .continueLoop => True

theorem Flow.Obeys.afterRound {flow next : Flow} (hflow : flow.Obeys D)
    (hnext : flow.afterRound = some next) : next.Obeys D := by
  cases flow <;> cases hnext
  · trivial
  · exact hflow

/-- The execution of a statement obeys a discipline. -/
def ExecObeys (D : Discipline) (env : Env) (s : Stmt) : Prop :=
  (execStmt env s).Obeys D (Flow.Obeys D)

theorem obeys_whileRounds {test : Execution Bool} {body : Execution Flow} (hrounds : D.runsOut)
    (htest : test.Obeys D fun _ => True) (hbody : body.Obeys D (Flow.Obeys D))
    (rounds : Nat) : (whileRounds test body rounds).Obeys D (Flow.Obeys D) := by
  induction rounds with
  | zero => exact hrounds
  | succ rounds ih =>
    rw [whileRounds]
    refine htest.bind fun b _ => ?_
    split_ifs
    · refine hbody.bind fun flow hflow => ?_
      split
      · next next hnext => exact hflow.afterRound hnext
      · exact ih
    · trivial

theorem obeys_forEach {bind : Value → Execution Unit} {body : Execution Flow}
    (hbind : ∀ v : Value, D.value v → (bind v).Obeys D fun _ => True)
    (hbody : body.Obeys D (Flow.Obeys D)) {items : List Value} (hitems : ∀ v ∈ items, D.value v) :
    (forEach bind body items).Obeys D (Flow.Obeys D) := by
  induction items with
  | nil => trivial
  | cons v items ih =>
    rw [List.forall_mem_cons] at hitems
    rw [forEach]
    refine (hbind v hitems.1).bind fun _ _ => hbody.bind fun flow hflow => ?_
    split
    · next next hnext => exact hflow.afterRound hnext
    · exact ih hitems.2

theorem obeys_execBlock_of_forall {stmts : List Stmt} (hstmts : ∀ s ∈ stmts, ExecObeys D env s) :
    (execBlock env stmts).Obeys D (Flow.Obeys D) := by
  induction stmts with
  | nil => trivial
  | cons s stmts ih =>
    rw [List.forall_mem_cons] at hstmts
    rw [execBlock]
    refine hstmts.1.bind fun flow hflow => ?_
    split
    · exact ih hstmts.2
    · exact hflow

theorem obeys_execBranches {branches : List (Expr × List Stmt)} {otherwise : Execution Flow}
    (htests : ∀ p ∈ branches, EvalObeys D env p.1)
    (hbodies : ∀ p ∈ branches, ∀ s ∈ p.2, ExecObeys D env s)
    (hotherwise : otherwise.Obeys D (Flow.Obeys D)) :
    (execBranches env otherwise branches).Obeys D (Flow.Obeys D) := by
  induction branches with
  | nil => exact hotherwise
  | cons p branches ih =>
    rw [List.forall_mem_cons] at htests hbodies
    rw [execBranches]
    refine htests.1.lift.bind fun v _ => (Execution.obeys_lift (obeys_holds v)).bind fun b _ => ?_
    split_ifs
    · exact obeys_execBlock_of_forall hbodies.1
    · exact ih htests.2 hbodies.2

include hD

/-- The items of a loop are values of the discipline. -/
theorem value_loopItems {h : Heap} (hh : D.heap h) {v : Value} (hv : D.value v) :
    Ensures (fun items => ∀ w ∈ items.toList, D.value w) (LoopItems.ofValue v h) := by
  unfold LoopItems.ofValue
  split
  · refine ensures_ok fun w hw => ?_
    obtain ⟨i, -, rfl⟩ := List.mem_map.mp hw
    exact hD.number rfl
  · refine (hD.items hh hv).bind fun items hitems => ensures_ok fun w hw => ?_
    exact hitems w (Array.mem_toList_iff.mp hw)

/-- The execution of a statement of a lawful discipline obeys it. -/
theorem obeys_execStmt (s : Stmt) : D.stmt s → ExecObeys D env s := by
  induction s using Stmt.induction with
  | step s ih =>
  intro hs
  have hexprs : ∀ e ∈ s.exprs, EvalObeys D env e := fun e he =>
    obeys_evalExpr hD e (hD.exprs hs e he)
  replace ih : ∀ t ∈ s.bodies, ExecObeys D env t := fun t ht => ih t ht (hD.bodies hs t ht)
  rw [ExecObeys]
  cases s with
  | expr e =>
    rw [execStmt]
    exact (hexprs e List.mem_cons_self).lift.bind fun v _ => trivial
  | assign targets e =>
    rw [execStmt]
    refine (hexprs e List.mem_cons_self).lift.bind fun v hv => ?_
    have htargets := fun e he => hexprs e (List.mem_cons_of_mem _ he)
    exact (obeys_assignAll hD hv htargets).bind fun _ _ => trivial
  | update op target e =>
    rw [execStmt]
    have htarget := fun e he => hexprs e (List.mem_cons_of_mem _ he)
    exact (obeys_update hD htarget (hexprs e List.mem_cons_self)).bind fun _ _ => trivial
  | branch branches otherwise =>
    rw [execStmt]
    refine obeys_execBranches (fun p hp => hexprs p.1 (List.mem_map_of_mem hp))
      (fun p hp t ht => ih t (List.mem_append_left _ (List.mem_flatMap.mpr ⟨p, hp, ht⟩))) ?_
    exact obeys_execBlock_of_forall fun t ht => ih t (List.mem_append_right _ ht)
  | whileLoop test body =>
    rw [execStmt]
    refine obeys_whileRounds (hD.loops hs) ?_ (obeys_execBlock_of_forall ih) env.rounds
    exact (hexprs test List.mem_cons_self).lift.bind fun v _ => Execution.obeys_lift (obeys_holds v)
  | forLoop names iterable body =>
    rw [execStmt]
    refine (hexprs iterable List.mem_cons_self).lift.bind fun v hv => ?_
    refine (Execution.obeys_liftWork
      (Work.obeys_readHeap fun h hh => value_loopItems hD hh hv)).bind fun items hitems => ?_
    rw [forRounds_eq_forEach]
    exact obeys_forEach (fun v => obeys_bindLoopNames hD names)
      (obeys_execBlock_of_forall ih) hitems
  | breakLoop | continueLoop | pass => trivial
  | define name params body =>
    rw [execStmt]
    refine (obeys_evalParams hexprs).bind fun ps hps => ?_
    refine (Execution.obeys_liftWork (Work.obeys_perform fun h hh =>
      hD.newFunction hps (hD.bodies hs) hh)).bind fun f hf => ?_
    exact ⟨hf, trivial⟩
  | returnValue e =>
    rw [execStmt]
    refine (Execution.obeys_lift (obeys_evalOption fun e he => hexprs e ?_)).bind fun v hv => ?_
    · rw [Option.mem_def] at he
      simp [Stmt.exprs, he]
    · exact value_getD hv hD.none
  | raise e =>
    rw [execStmt]
    refine (hexprs e List.mem_cons_self).lift.bind fun v _ => ?_
    refine (Execution.obeys_liftWork
      (Work.obeys_readHeap fun h _ => ensures_true)).bind fun text _ => ?_
    exact Execution.obeys_liftWork Work.obeys_fail
  | delete targets =>
    rw [execStmt]
    exact (obeys_deleteAll hD hexprs).bind fun _ _ => trivial
  | declareGlobal names => exact ⟨trivial, trivial⟩

/-- The execution of statements of a lawful discipline obeys it. -/
theorem obeys_execBlock {stmts : List Stmt} (hstmts : ∀ s ∈ stmts, D.stmt s) :
    (execBlock env stmts).Obeys D (Flow.Obeys D) :=
  obeys_execBlock_of_forall fun s hs => obeys_execStmt hD s (hstmts s hs)

/-! ### Calls -/

omit hD

/-- The values in a slot are values of a discipline. -/
def Slot.Obeys (D : Discipline) (slot : Slot) : Prop :=
  (∀ v ∈ slot.given, D.value v) ∧ ∀ v ∈ slot.default?, D.value v

theorem obeys_positionalSlots {params : List (String × Option Value)} {values : List Value}
    (hparams : ∀ p ∈ params, ∀ v ∈ p.2, D.value v) (hvalues : ∀ v ∈ values, D.value v) :
    ∀ slot ∈ positionalSlots params values, slot.Obeys D := by
  induction params generalizing values with
  | nil => exact fun _ hslot => absurd hslot List.not_mem_nil
  | cons param params ih =>
    obtain ⟨name, default?⟩ := param
    rw [List.forall_mem_cons] at hparams
    cases values with
    | nil => exact List.forall_mem_cons.mpr ⟨⟨nofun, hparams.1⟩, ih hparams.2 hvalues⟩
    | cons v values =>
      rw [List.forall_mem_cons] at hvalues
      refine List.forall_mem_cons.mpr ⟨⟨?_, hparams.1⟩, ih hparams.2 hvalues.2⟩
      rintro _ ⟨⟩
      exact hvalues.1

theorem obeys_fillSlot {function name : String} {v : Value} (hv : D.value v)
    {slots : List Slot} (hslots : ∀ slot ∈ slots, slot.Obeys D) :
    Ensures (fun filled => ∀ slot ∈ filled, slot.Obeys D) (fillSlot function name v slots) := by
  induction slots with
  | nil => exact ensures_error
  | cons slot slots ih =>
    rw [List.forall_mem_cons] at hslots
    rw [fillSlot]
    refine ensures_ite (fun _ => ?_) fun _ => ?_
    · refine ensures_ite (fun _ => ensures_error) fun _ => ensures_ok ?_
      refine List.forall_mem_cons.mpr ⟨⟨?_, hslots.1.2⟩, hslots.2⟩
      rintro _ ⟨⟩
      exact hv
    · exact (ih hslots.2).map fun filled hfilled => List.forall_mem_cons.mpr ⟨hslots.1, hfilled⟩

theorem obeys_fillSlots {function : String} {named : List (String × Value)}
    (hnamed : ∀ p ∈ named, D.value p.2) {slots : List Slot}
    (hslots : ∀ slot ∈ slots, slot.Obeys D) :
    Ensures (fun filled => ∀ slot ∈ filled, slot.Obeys D) (fillSlots function named slots) := by
  induction named generalizing slots with
  | nil => exact ensures_ok hslots
  | cons p named ih =>
    rw [List.forall_mem_cons] at hnamed
    exact (obeys_fillSlot hnamed.1 hslots).bind fun filled hfilled => ih hnamed.2 hfilled

/-- The local names of a call are bound to arguments and defaults. -/
theorem value_bindArguments {f : Function} (hf : ∀ p ∈ f.params, ∀ v ∈ p.2, D.value v)
    (hargs : args.Obeys D) :
    Ensures (fun frame => ∀ e ∈ frame.locals, D.value e.2) (bindArguments f args) := by
  refine ensures_ite (fun _ => ensures_error) fun _ => ?_
  refine (obeys_fillSlots hargs.keyword (obeys_positionalSlots hf hargs.positional)).bind
    fun slots hslots => ?_
  split
  · refine ensures_ok fun e he => ?_
    obtain ⟨slot, hslot, hvalue⟩ := List.mem_filterMap.mp he
    obtain ⟨v, hv, rfl⟩ := Option.map_eq_some_iff.mp hvalue
    rcases Option.or_eq_some_iff.mp hv with hgiven | ⟨-, hdefault⟩
    · exact (hslots slot hslot).1 v hgiven
    · exact (hslots slot hslot).2 v hdefault
  · exact ensures_error

theorem obeys_enter {s : State} (hs : s.Obeys D) {frame : Frame}
    (hframe : ∀ e ∈ frame.locals, D.value e.2) : (s.enter frame).Obeys D :=
  ⟨hs.heap, hs.globals, List.forall_mem_cons.mpr ⟨hframe, hs.locals⟩⟩

theorem obeys_leave {s : State} (hs : s.Obeys D) : s.leave.Obeys D :=
  ⟨hs.heap, hs.globals, fun frame hframe => hs.locals frame (List.mem_of_mem_tail hframe)⟩

include hD

/-- Calls of functions of a lawful discipline obey it, since the bodies of its functions do. -/
theorem obeys_callFunction (depth : Nat) : (callFunction env depth).Obeys D := by
  induction depth with
  | zero => exact fun _ _ _ _ => Run.obeys_fail
  | succ depth ih =>
    intro r args hr hargs s hs
    cases hbind : bindArguments (s.heap.function r) args with
    | error e =>
      rw [callFunction_of_error hbind]
      exact ⟨hs, nofun, nofun⟩
    | ok frame =>
      have hframe := value_bindArguments (hD.defaults hs.heap hr) hargs frame hbind
      have hbody := (obeys_execBlock hD (hD.body hs.heap hr)).run hD.toLooksUp ih _
        (obeys_enter hs hframe)
      rw [callFunction_of_ok hbind]
      generalize (execBlock env (s.heap.function r).body).run env (callFunction env depth)
        (s.enter frame) = outcome at hbody ⊢
      rcases outcome with ⟨stop | flow, t⟩
      · refine ⟨obeys_leave hbody.1, ?_, nofun⟩
        rintro ⟨⟩
        exact hbody.2.1 rfl
      · refine ⟨obeys_leave hbody.1, nofun, ?_⟩
        rintro _ ⟨⟩
        have hflow := hbody.2.2 flow rfl
        cases flow with
        | returned v => exact hflow
        | _ => exact hD.none

/-- A program of a lawful discipline obeys it. -/
theorem obeys_runProgram {stmts : List Stmt} (hstmts : ∀ s ∈ stmts, D.stmt s) (s : State) :
    ((execBlock env stmts).run env (callHere env s)).Obeys D (Flow.Obeys D) :=
  (obeys_execBlock hD hstmts).run hD.toLooksUp (obeys_callFunction hD _)

/-! ### Points of a run -/

/-- Every point of a run of steps that obey a lawful discipline obeys it. -/
theorem Reaches.obeys {depth : Nat} {callee? : Option Function} {α : Type} {A : α → Prop}
    {x : Execution α} {s : State} {p : RunPoint} (h : Reaches env depth callee? x s p)
    (hx : x.Obeys D A) (hs : s.Obeys D) : p.state.Obeys D := by
  induction h with
  | here => exact hs
  | done _ ih =>
    obtain ⟨B, hdone, hnext⟩ := hx
    exact ih (hnext _ hdone) hs
  | failed hwork =>
    obtain ⟨B, ⟨C, hobeys, -⟩, -⟩ := hx
    exact ((Run.obeys_onWorld hobeys).of_eq hs hwork).1
  | work hwork _ ih =>
    obtain ⟨B, ⟨C, hobeys, hmore⟩, hnext⟩ := hx
    obtain ⟨ht, hc⟩ := (Run.obeys_onWorld hobeys).of_eq hs hwork
    exact ih ⟨B, hmore _ (hc _ rfl), hnext⟩ ht
  | lookup hname _ ih =>
    obtain ⟨B, hmore, hnext⟩ := hx
    obtain ⟨ht, hv⟩ := (hD.toLooksUp.lookup _).of_eq hs hname
    exact ih ⟨B, hmore _ (hv _ rfl), hnext⟩ ht
  | enter hbind _ ih =>
    obtain ⟨B, ⟨hr, hargs, -⟩, -⟩ := hx
    have hframe := value_bindArguments (hD.defaults hs.heap hr) hargs _ hbind
    exact ih (obeys_execBlock hD (hD.body hs.heap hr)) (obeys_enter hs hframe)
  | leave hcall _ ih =>
    obtain ⟨B, ⟨hr, hargs, hmore⟩, hnext⟩ := hx
    obtain ⟨ht, hv⟩ := (obeys_callFunction hD _ _ _ hr hargs).of_eq hs hcall
    exact ih ⟨B, hmore _ (hv _ rfl), hnext⟩ ht
  | change hc _ ih =>
    obtain ⟨hchange, hnext⟩ := hx
    exact ih hnext (hchange.run.of_eq hs hc).1

end Lawful

end NoteShell.Script
