import NoteShell.Proofs.Execution.PrimitiveMethods
import NoteShell.Proofs.Execution.Run
import NoteShell.Proofs.Values.Data

/-!
# What operations change

Several names may stand for one list or dict, and lists and dicts may hold each other and
themselves. An operation on a list or dict changes it wherever it is seen. It changes no other list
or dict, and an operation that fails changes nothing at all: none of its steps that may fail, which
may go through other lists and dicts or through the changed one itself, comes after one that has
changed something.

## Main definitions

* `Heap.ChangesOnly` : nothing has changed but one list or dict.
* `HeapM.ChangesOnly` : steps that change nothing else, and nothing at all where they fail.
* `ChangesOrFails` : what comes of an operation.

## Main results

* `changesOnly_callStrMethod`, `changesOnly_callListMethod`, `changesOnly_callDictMethod` : methods.
* `changesOnly_setItem`, `changesOnly_deleteItem`, `changesOnly_updateInPlace` : items and updates.
* `operations_change_or_fail` : what is said above, for the expressions and statements.
-/

namespace NoteShell.Script

open NoteShell.Grammar

/-- From one heap to another nothing has changed but the list or dict that a value is. New lists and
dicts may have been made. -/
structure Heap.ChangesOnly (v : Value) (h h' : Heap) : Prop where
  lists : ∀ (n : Nat) (items : Array Value), v ≠ .list ⟨n⟩ → h.lists[n]? = some items →
    h'.lists[n]? = some items
  dicts : ∀ (n : Nat) (entries : Entries), v ≠ .dict ⟨n⟩ → h.dicts[n]? = some entries →
    h'.dicts[n]? = some entries
  functions : h'.functions = h.functions

/-- Steps change nothing but the list or dict that a value is, and nothing at all where they
fail. -/
structure HeapM.ChangesOnly {α : Type} (v : Value) (op : HeapM α) : Prop where
  changes : ∀ h : Heap, h.ChangesOnly v (op h).2
  unchanged : ∀ (h : Heap) failure, (op h).1 = .error failure → (op h).2 = h

variable {α : Type} {v : Value} {h h' h'' : Heap}

/-! ### Effects -/

namespace Heap.ChangesOnly

/-- Where everything is still there, nothing has changed. -/
theorem of_extends (v : Value) (hext : h.Extends h') (hfunctions : h'.functions = h.functions) :
    h.ChangesOnly v h' :=
  ⟨fun n items _ => hext.lists n items, fun n entries _ => hext.dicts n entries, hfunctions⟩

theorem refl (v : Value) (h : Heap) : h.ChangesOnly v h := of_extends v (.refl h) rfl

theorem trans (hh : h.ChangesOnly v h') (hh' : h'.ChangesOnly v h'') : h.ChangesOnly v h'' :=
  ⟨fun n items hv hn => hh'.lists n items hv (hh.lists n items hv hn),
    fun n entries hv hn => hh'.dicts n entries hv (hh.dicts n entries hv hn),
    hh'.functions.trans hh.functions⟩

theorem newList (v : Value) (h : Heap) (items : Array Value) :
    h.ChangesOnly v (h.newList items).2 :=
  of_extends v (h.extends_newList items) rfl

theorem newDict (v : Value) (h : Heap) (es : Entries) : h.ChangesOnly v (h.newDict es).2 :=
  of_extends v (h.extends_newDict es) rfl

theorem updateList (h : Heap) (r : ListRef) (f : Array Value → Array Value) :
    h.ChangesOnly (.list r) (h.updateList r f) := by
  refine ⟨fun n items hv hn => ?_, fun _ _ _ => id, rfl⟩
  have hne : r.index ≠ n := fun hn => hv (hn ▸ rfl)
  rwa [Heap.updateList, Array.getElem?_modify, if_neg hne]

theorem updateDict (h : Heap) (r : DictRef) (f : Entries → Entries) :
    h.ChangesOnly (.dict r) (h.updateDict r f) := by
  refine ⟨fun _ _ _ => id, fun n entries hv hn => ?_, rfl⟩
  have hne : r.index ≠ n := fun hn => hv (hn ▸ rfl)
  rwa [Heap.updateDict, Array.getElem?_modify, if_neg hne]

end Heap.ChangesOnly

/-! ### Operations -/

/-- Programs that change nothing in a heap but the list or dict that a value is. -/
def onlyChanges (v : Value) (h : Heap) : Discipline := .ofHeap (h.ChangesOnly v)

theorem onlyChanges_primitives (v : Value) (h : Heap) :
    (onlyChanges v h).Primitives (fun _ => True) (· = v) := by
  refine Discipline.primitives_ofHeap ?_ ?_ ?_ ?_
  · exact fun items hh => hh.trans (.newList v _ items)
  · exact fun es hh => hh.trans (.newDict v _ es)
  · rintro _ r f rfl hh
    exact hh.trans (.updateList _ r f)
  · rintro _ r f rfl hh
    exact hh.trans (.updateDict _ r f)

theorem HeapM.ChangesOnly.of_obeys {A : α → Prop} {op : HeapM α}
    (hop : ∀ h, op.Obeys (onlyChanges v h) A) : op.ChangesOnly v :=
  ⟨fun h => (hop h h (.refl v h)).heap, fun h => (hop h h (.refl v h)).unchanged⟩

theorem obeys_onlyChanges (args : CallArgs) : args.Obeys (onlyChanges v h) :=
  ⟨fun _ _ => trivial, fun _ _ => trivial⟩

/-- Methods of texts give new values. -/
theorem changesOnly_callStrMethod (v : Value) (s : String) (m : StrMethod) (args : CallArgs) :
    (callStrMethod s m args).ChangesOnly v :=
  .of_obeys fun h => obeys_callStrMethod (onlyChanges_primitives v h) trivial args

/-- Methods of lists change their own list. The items of another list are read before, and so are
those of the list itself where it extends itself. -/
theorem changesOnly_callListMethod (sorter : Sorter) (r : ListRef) (m : ListMethod)
    (args : CallArgs) :
    (callListMethod sorter r m args).ChangesOnly (.list r) :=
  .of_obeys fun h =>
    obeys_callListMethod (onlyChanges_primitives _ h) sorter rfl trivial m (obeys_onlyChanges args)

/-- Methods of dicts change their own dict. -/
theorem changesOnly_callDictMethod (r : DictRef) (m : DictMethod) (args : CallArgs) :
    (callDictMethod r m args).ChangesOnly (.dict r) :=
  .of_obeys fun h =>
    obeys_callDictMethod (onlyChanges_primitives _ h) rfl trivial (obeys_onlyChanges args)

theorem changesOnly_setItem (container index v : Value) :
    (setItem container index v).ChangesOnly container :=
  .of_obeys fun h => obeys_setItem (onlyChanges_primitives _ h) rfl trivial trivial trivial

theorem changesOnly_deleteItem (container index : Value) :
    (deleteItem container index).ChangesOnly container :=
  .of_obeys fun h => obeys_deleteItem (onlyChanges_primitives _ h) rfl trivial index

/-- An update changes a list in place, and everything else not at all. -/
theorem changesOnly_updateInPlace (op : BinaryOp) (current value : Value) :
    (updateInPlace op current value).ChangesOnly current :=
  .of_obeys fun h =>
    obeys_updateInPlace (onlyChanges_primitives _ h) op rfl (fun _ _ => trivial) trivial

/-! ### States -/

/-- What comes of an operation on a value: nothing has changed but the list or dict that the value
is, or the operation has failed and nothing has changed. -/
inductive ChangesOrFails {α : Type} (v : Value) (s : State) : Except Halt α × State → Prop
  | changed (a : α) {h : Heap} (hchanges : s.heap.ChangesOnly v h) :
    ChangesOrFails v s (.ok a, { s with heap := h })
  | failed (failure : Failure) : ChangesOrFails v s (.error failure.halt, s)

section States

variable {s : State}

/-- An operation that has failed has left the state as it was. -/
theorem ChangesOrFails.eq_of_error {outcome : Except Halt α × State}
    (houtcome : ChangesOrFails v s outcome) {stop : Halt} (hstop : outcome.1 = .error stop) :
    outcome = (.error stop, s) := by
  cases houtcome with
  | changed a hchanges => cases hstop
  | failed e =>
    cases hstop
    rfl

theorem changesOrFails_onHeap {op : HeapM α} (hop : op.ChangesOnly v) (s : State) :
    ChangesOrFails v s (Run.onWorld (Work.onHeap op) s) := by
  have hchanges := hop.changes s.heap
  have hunchanged := hop.unchanged s.heap
  rw [Run.onHeap_apply]
  generalize op s.heap = outcome at hchanges hunchanged ⊢
  rcases outcome with ⟨failure | a, h⟩
  · obtain rfl : h = s.heap := hunchanged failure rfl
    exact .failed failure
  · exact .changed a hchanges

end States

/-! ### Expressions and statements -/

section Steps

variable {env : Env} {call : Caller} {target container index e : Expr}
  {receiver current i : Value} {s t u x : State}

/-- A call of a method changes at most the value that the method is of. -/
theorem changesOrFails_callValue {name : String} {m : Value} (hm : methodOf receiver name = .ok m)
    (args : CallArgs) (s : State) :
    ChangesOrFails receiver s ((callValue env m args).run env call s) := by
  rcases methodOf_eq_ok hm with ⟨text, method, rfl, -, rfl⟩ | ⟨r, method, rfl, -, rfl⟩ |
      ⟨r, method, rfl, -, rfl⟩ <;>
    rw [callValue, Evaluation.run_lift]
  · exact changesOrFails_onHeap (changesOnly_callStrMethod _ text method args) s
  · exact changesOrFails_onHeap (changesOnly_callListMethod _ r method args) s
  · exact changesOrFails_onHeap (changesOnly_callDictMethod r method args) s

/-- A method is looked up before the arguments of its call are evaluated. -/
theorem run_member (htarget : (evalExpr env target).run env call s = (.ok receiver, t))
    (name : String) :
    (evalExpr env (.member target name)).run env call s =
      match methodOf receiver name with
      | .ok m => (.ok m, t)
      | .error e => (.error (.error e), t) := by
  rw [evalExpr, Evaluation.run_bind, Run.bind_of_ok htarget, Evaluation.run_lift]
  cases methodOf receiver name <;> rfl

theorem changesOrFails_methodCall {name : String} {m : Value} {args : List Expr}
    {keywords : List (String × Expr)} {positional : List Value} {keyword : List (String × Value)}
    (htarget : (evalExpr env target).run env call s = (.ok receiver, t))
    (hm : methodOf receiver name = .ok m)
    (hargs : (evalItems env [] args).run env call t = (.ok positional, u))
    (hkeywords : (evalNamed env [] keywords).run env call u = (.ok keyword, x)) :
    ChangesOrFails receiver x
      ((evalExpr env (.call (.member target name) args keywords)).run env call s) := by
  have hmember := run_member htarget name
  rw [hm] at hmember
  rw [evalExpr, Evaluation.run_bind, Run.bind_of_ok hmember, Evaluation.run_bind,
    Run.bind_of_ok hargs, Evaluation.run_bind, Run.bind_of_ok hkeywords]
  exact changesOrFails_callValue hm _ x

/-- The last step of an assignment to an item. -/
theorem run_assign_item
    (hcontainer : (evalExpr env container).run env call s = (.ok receiver, t))
    (hindex : (evalExpr env index).run env call t = (.ok i, u)) (v : Value) :
    (assign env v (.index container index)).run env call s =
      Run.onWorld (Work.onHeap (setItem receiver i v)) u := by
  rw [assign, Execution.run_bind, Execution.run_lift, Run.bind_of_ok hcontainer,
    Execution.run_bind, Execution.run_lift, Run.bind_of_ok hindex, Execution.run_liftWork]

theorem changesOrFails_delete
    (hcontainer : (evalExpr env container).run env call s = (.ok receiver, t))
    (hindex : (evalExpr env index).run env call t = (.ok i, u)) :
    ChangesOrFails receiver u ((delete env (.index container index)).run env call s) := by
  rw [delete, Execution.run_bind, Execution.run_lift, Run.bind_of_ok hcontainer,
    Execution.run_bind, Execution.run_lift, Run.bind_of_ok hindex, Execution.run_liftWork]
  exact changesOrFails_onHeap (changesOnly_deleteItem receiver i) u

/-- The last steps of an update of a name. -/
theorem run_update_name (op : BinaryOp) {name : String}
    (hcurrent : Script.lookup env name s = (.ok current, t))
    (he : (evalExpr env e).run env call t = (.ok v, u)) :
    (update env op (.name name) e).run env call s =
      (Run.onWorld (Work.onHeap (updateInPlace op current v)) >>= fun updated =>
        (Execution.store name updated).run env call) u := by
  have hlookup : (Evaluation.lookup name .done).run env call s = (.ok current, t) := by
    rw [Evaluation.run_lookup, Run.bind_of_ok hcurrent]
    rfl
  rw [update, Execution.run_bind, Execution.run_lift, Run.bind_of_ok hlookup, Execution.run_bind,
    Execution.run_lift, Run.bind_of_ok he, Execution.run_bind, Execution.run_liftWork]

/-- The last steps of an update of an item. -/
theorem run_update_item (op : BinaryOp)
    (hcontainer : (evalExpr env container).run env call s = (.ok receiver, t))
    (hindex : (evalExpr env index).run env call t = (.ok i, u))
    (hcurrent : getItem u.heap (reprValue u.heap) receiver i = .ok current)
    (he : (evalExpr env e).run env call u = (.ok v, x)) :
    (update env op (.index container index) e).run env call s =
      (Run.onWorld (Work.onHeap (updateInPlace op current v)) >>= fun updated =>
        Run.onWorld (Work.onHeap (setItem receiver i updated))) x := by
  have hread : Run.onWorld (Work.readHeap fun h => getItem h (reprValue h) receiver i) u =
      (.ok current, u) := by
    rw [Run.readHeap_apply, hcurrent]
  rw [update, Execution.run_bind, Execution.run_lift, Run.bind_of_ok hcontainer,
    Execution.run_bind, Execution.run_lift, Run.bind_of_ok hindex,
    Execution.run_bind, Execution.run_liftWork, Run.bind_of_ok hread,
    Execution.run_bind, Execution.run_lift, Run.bind_of_ok he,
    Execution.run_bind, Execution.run_liftWork]
  simp only [Execution.run_liftWork]

end Steps

/-- However lists and dicts share their items: a call of a method, an assignment to an item, the
deletion of an item and the step of an update change at most the one list or dict that they are made
on, wherever it is seen, and no other. Where one of them fails, the state is as it was when its last
operand had been evaluated: every list and dict holds what it held. -/
theorem operations_change_or_fail (env : Env) (call : Caller) :
    -- a method, as a value
    (∀ receiver name m args, ∀ s : State, methodOf receiver name = .ok m →
      ChangesOrFails receiver s ((callValue env m args).run env call s)) ∧
    -- the call of a method, and of one that the receiver does not have
    (∀ target name args keywords receiver, ∀ s t : State,
      (evalExpr env target).run env call s = (.ok receiver, t) →
      (∀ e, methodOf receiver name = .error e →
        (evalExpr env (.call (.member target name) args keywords)).run env call s =
          (.error (.error e), t)) ∧
      ∀ m positional keyword, ∀ u x : State, methodOf receiver name = .ok m →
        (evalItems env [] args).run env call t = (.ok positional, u) →
        (evalNamed env [] keywords).run env call u = (.ok keyword, x) →
        ChangesOrFails receiver x
          ((evalExpr env (.call (.member target name) args keywords)).run env call s)) ∧
    -- assignments to items and deletions of items
    (∀ container index receiver i, ∀ s t u : State,
      (evalExpr env container).run env call s = (.ok receiver, t) →
      (evalExpr env index).run env call t = (.ok i, u) →
      (∀ v, ChangesOrFails receiver u ((assign env v (.index container index)).run env call s)) ∧
      ChangesOrFails receiver u ((delete env (.index container index)).run env call s)) ∧
    -- updates of names
    (∀ op name e current v, ∀ s t u : State, Script.lookup env name s = (.ok current, t) →
      (evalExpr env e).run env call t = (.ok v, u) →
      ChangesOrFails current u (Run.onWorld (Work.onHeap (updateInPlace op current v)) u) ∧
      ∀ stop y, Run.onWorld (Work.onHeap (updateInPlace op current v)) u = (.error stop, y) →
        (update env op (.name name) e).run env call s = (.error stop, u)) ∧
    -- updates of items
    (∀ op container index e receiver i current v, ∀ s t u x : State,
      (evalExpr env container).run env call s = (.ok receiver, t) →
      (evalExpr env index).run env call t = (.ok i, u) →
      getItem u.heap (reprValue u.heap) receiver i = .ok current →
      (evalExpr env e).run env call u = (.ok v, x) →
      ChangesOrFails current x (Run.onWorld (Work.onHeap (updateInPlace op current v)) x) ∧
      (∀ stop y, Run.onWorld (Work.onHeap (updateInPlace op current v)) x = (.error stop, y) →
        (update env op (.index container index) e).run env call s = (.error stop, x)) ∧
      ∀ updated y, Run.onWorld (Work.onHeap (updateInPlace op current v)) x = (.ok updated, y) →
        ChangesOrFails receiver y
          ((update env op (.index container index) e).run env call s)) := by
  have hstep (op : BinaryOp) (current v : Value) (s : State) :
      ChangesOrFails current s (Run.onWorld (Work.onHeap (updateInPlace op current v)) s) :=
    changesOrFails_onHeap (changesOnly_updateInPlace op current v) s
  have hset (container index v : Value) (s : State) : ChangesOrFails container s
      (Run.onWorld (Work.onHeap (setItem container index v)) s) :=
    changesOrFails_onHeap (changesOnly_setItem container index v) s
  refine ⟨fun receiver name m args s hm => changesOrFails_callValue hm args s, ?_, ?_, ?_, ?_⟩
  · intro target name args keywords receiver s t htarget
    refine ⟨fun e he => ?_, fun m positional keyword u x hm => changesOrFails_methodCall htarget hm⟩
    have hmember := run_member htarget name
    rw [he] at hmember
    rw [evalExpr, Evaluation.run_bind, Run.bind_of_error hmember]
  · intro container index receiver i s t u hcontainer hindex
    refine ⟨fun v => ?_, changesOrFails_delete hcontainer hindex⟩
    rw [run_assign_item hcontainer hindex]
    exact hset receiver i v u
  · intro op name e current v s t u hcurrent he
    refine ⟨hstep op current v u, fun stop y hstop => ?_⟩
    have hfails := (hstep op current v u).eq_of_error (congrArg Prod.fst hstop)
    rw [run_update_name op hcurrent he, Run.bind_of_error hfails]
  · intro op container index e receiver i current v s t u x hcontainer hindex hcurrent he
    have hrun := run_update_item op hcontainer hindex hcurrent he
    refine ⟨hstep op current v x, fun stop y hstop => ?_, fun updated y hupdated => ?_⟩
    · have hfails := (hstep op current v x).eq_of_error (congrArg Prod.fst hstop)
      rw [hrun, Run.bind_of_error hfails]
    · rw [hrun, Run.bind_of_ok hupdated]
      exact hset receiver i updated y

/-- A list that is seen under a name, in a dict and in itself. -/
theorem operations_change_or_fail_shared :
    let env : Env := ⟨.empty coreNames, .empty, 1, .insertion⟩
    let s : State := ⟨[("xs", .list ⟨0⟩), ("d", .dict ⟨0⟩)], [],
      ⟨#[#[.int 3, .str "a", .list ⟨0⟩]], #[[("k", .list ⟨0⟩)]], #[]⟩, Host.ofFiles .empty⟩
    (∃ stop, (evalExpr env (.call (.member (.name "xs") "sort") [] [])).run env (callHere env s) s =
      (.error stop, s)) ∧
    (∃ stop, (assign env .none (.index (.name "xs") (.int 3))).run env (callHere env s) s =
      (.error stop, s)) ∧
    (∃ stop, (delete env (.index (.name "d") (.str "a"))).run env (callHere env s) s =
      (.error stop, s)) ∧
    (∃ stop, (update env .add (.name "xs") (.int 1)).run env (callHere env s) s =
      (.error stop, s)) ∧
    ∃ stop, (update env .add (.index (.name "d") (.str "k")) (.int 1)).run env (callHere env s) s =
      (.error stop, s) := by
  intro env s
  obtain ⟨-, hcall, hitem, hname, hupdate⟩ := operations_change_or_fail env (callHere env s)
  refine ⟨?_, ?_, ?_, ?_, ?_⟩
  · exact ⟨_, ((hcall (.name "xs") "sort" [] [] (.list ⟨0⟩) s s rfl).2 (.listMethod ⟨0⟩ .sort) [] []
      s s rfl rfl rfl).eq_of_error rfl⟩
  · exact ⟨_, ((hitem (.name "xs") (.int 3) (.list ⟨0⟩) (.int 3) s s s rfl rfl).1 .none).eq_of_error
      rfl⟩
  · exact ⟨_, (hitem (.name "d") (.str "a") (.dict ⟨0⟩) (.str "a") s s s rfl rfl).2.eq_of_error rfl⟩
  · exact ⟨_, (hname .add "xs" (.int 1) (.list ⟨0⟩) (.int 1) s s s rfl rfl).2 _ _ rfl⟩
  · exact ⟨_, (hupdate .add (.name "d") (.str "k") (.int 1) (.dict ⟨0⟩) (.str "k")
      (.list ⟨0⟩) (.int 1)
      s s s s rfl rfl rfl rfl).2.1 _ _ rfl⟩

end NoteShell.Script
