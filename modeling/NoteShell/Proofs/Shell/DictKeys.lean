import NoteShell.Proofs.Execution.Changes
import NoteShell.Proofs.Shell.Sessions

/-!
# The keys of dicts

The entries of a dict are a list, and nothing in its type keeps a key from occurring twice. But
however a session goes on, no dict in its heap ever has a key twice. An assignment to a key that is
there keeps its place, and an assignment to another key adds it at the end.

## Main definitions

* `Heap.DistinctKeys` : the keys of each dict are distinct.
* `SetsKey` : all that changes when a key is set.

## Main results

* `run_assign_key`, `run_update_key` : assignments to a key set it.
* `dictKeys_after` : what is said above, for all sessions.
-/

namespace NoteShell.Script

open NoteShell.Grammar

/-- The keys of each dict are distinct. -/
def Heap.DistinctKeys (h : Heap) : Prop := ∀ es ∈ h.dicts, es.keys.Nodup

theorem Heap.Sound.distinctKeys {bounded : Bool} {h : Heap} (hh : h.Sound bounded) :
    h.DistinctKeys :=
  fun es hes => (hh.dicts es hes).nodup

/-! ### Setting a key -/

variable {h : Heap} {r : DictRef} {key : String} {v : Value}

/-- All that changes from one heap to another when the value of a key in a dict is set. -/
structure SetsKey (h : Heap) (r : DictRef) (key : String) (v : Value) (h' : Heap) : Prop where
  /-- A key that is there keeps its place. -/
  present : key ∈ (h.entries r).keys → ∃ before old after,
    h.entries r = before ++ (key, old) :: after ∧ h'.entries r = before ++ (key, v) :: after
  /-- Another key goes to the end. -/
  absent : key ∉ (h.entries r).keys → h'.entries r = h.entries r ++ [(key, v)]
  /-- The key now has the value. -/
  reads : ∀ shown, getItem h' shown (.dict r) (.str key) = .ok v
  /-- All other keys have the values that they had, if any. -/
  unchanged : ∀ shown k, k ≠ key →
    getItem h' shown (.dict r) (.str k) = getItem h shown (.dict r) (.str k)
  /-- All other dicts are as they were. -/
  dicts : ∀ n, n ≠ r.index → h'.dicts[n]? = h.dicts[n]?
  lists : h'.lists = h.lists
  functions : h'.functions = h.functions

theorem Heap.entries_updateDict (hr : r.index < h.dicts.size) (f : Entries → Entries) :
    (h.updateDict r f).entries r = f (h.entries r) := by
  simp only [entries, updateDict, Array.getD_eq_getD_getElem?, Array.getElem?_modify,
    Array.getElem?_eq_getElem hr]
  rfl

theorem setsKey_updateDict (hr : r.index < h.dicts.size) (key : String) (v : Value) :
    SetsKey h r key v (h.updateDict r (Entries.set key v)) := by
  have hentries := Heap.entries_updateDict hr (Entries.set key v)
  constructor
  case present =>
    intro hkey
    obtain ⟨before, old, after, hold, -, hnew⟩ := Entries.set_of_mem hkey v
    exact ⟨before, old, after, hold, hentries.trans hnew⟩
  case absent => exact fun hkey => hentries.trans (Entries.set_of_not_mem hkey v)
  case reads =>
    intro shown
    rw [getItem, hentries, Entries.get?_set_self]
  case unchanged =>
    intro shown k hk
    rw [getItem, getItem, hentries, Entries.get?_set_of_ne hk]
  case dicts =>
    intro n hn
    rw [Heap.updateDict, Array.getElem?_modify, if_neg (Ne.symm hn)]
  case lists => rfl
  case functions => rfl

/-! ### Assignments to a key -/

section Assignments

variable {env : Env} {call : Caller} {container index e : Expr} {s t u x y : State}

/-- The last step of the assignments below. -/
theorem run_setItem_key (hr : r.index < s.heap.dicts.size) (key : String) (v : Value) :
    ∃ h', (discard (Run.onWorld (Work.onHeap (setItem (.dict r) (.str key) v))) : Run Unit) s =
      (.ok (), { s with heap := h' }) ∧ SetsKey s.heap r key v h' :=
  ⟨_, rfl, setsKey_updateDict hr key v⟩

/-- An assignment to a key of a dict sets it. -/
theorem run_assign_key (hcontainer : (evalExpr env container).run env call s = (.ok (.dict r), t))
    (hindex : (evalExpr env index).run env call t = (.ok (.str key), u))
    (hr : r.index < u.heap.dicts.size) :
    ∃ h', (assign env v (.index container index)).run env call s =
      (.ok (), { u with heap := h' }) ∧ SetsKey u.heap r key v h' := by
  obtain ⟨h', hset, hkey⟩ := run_setItem_key hr key v
  exact ⟨h', (run_assign_item hcontainer hindex v).trans hset, hkey⟩

/-- An update of the value of a key in a dict sets it to the updated value. -/
theorem run_update_key {op : BinaryOp} {current operand : Value}
    (hcontainer : (evalExpr env container).run env call s = (.ok (.dict r), t))
    (hindex : (evalExpr env index).run env call t = (.ok (.str key), u))
    (hcurrent : getItem u.heap (reprValue u.heap) (.dict r) (.str key) = .ok current)
    (hoperand : (evalExpr env e).run env call u = (.ok operand, x))
    (hupdate : Run.onWorld (Work.onHeap (updateInPlace op current operand)) x = (.ok v, y))
    (hr : r.index < y.heap.dicts.size) :
    ∃ h', (update env op (.index container index) e).run env call s =
      (.ok (), { y with heap := h' }) ∧ SetsKey y.heap r key v h' := by
  obtain ⟨h', hset, hkey⟩ := run_setItem_key hr key v
  refine ⟨h', ?_, hkey⟩
  rw [run_update_item op hcontainer hindex hcurrent hoperand, Run.bind_of_ok hupdate]
  exact hset

end Assignments

end NoteShell.Script

namespace NoteShell

open NoteShell.Grammar NoteShell.Script

/-- Where sizes do not matter, all lines are sound. -/
theorem soundLine_of_unbounded {bounded : Bool} (hb : bounded ≠ true) (line : String) :
    SoundLine bounded line := by
  have hsound (g : Expr) : g.Sound bounded := fun h => absurd h hb
  refine ⟨fun h => absurd h hb, fun command _ => ⟨fun e _ g _ => hsound g, ?_⟩⟩
  exact fun stmts _ s _ g _ => hsound g

/-- Whatever lines a session has read, the keys of each dict in its heap are distinct, and they are
at every point of the next command. An assignment or an update of a key in a dict sets it: a key
that is there keeps its place, another key goes to the end, everything else is as it was, and
reading the key back gives the assigned value. -/
theorem dictKeys_after (registry : Registry) (rounds : Nat) (host : Host) (lines : List String) :
    let session := (Session.ofShell (.ofRegistry registry rounds) host).after lines
    session.shell.heap.DistinctKeys ∧
    (∀ line p, session.Reaches line p → p.state.heap.DistinctKeys) ∧
    (∀ env call container index r key v, ∀ s t u : State,
      (evalExpr env container).run env call s = (.ok (.dict r), t) →
      (evalExpr env index).run env call t = (.ok (.str key), u) →
      r.index < u.heap.dicts.size →
      ∃ h', (assign env v (.index container index)).run env call s =
        (.ok (), { u with heap := h' }) ∧ SetsKey u.heap r key v h') ∧
    (∀ env call op container index e r key current operand v, ∀ s t u x y : State,
      (evalExpr env container).run env call s = (.ok (.dict r), t) →
      (evalExpr env index).run env call t = (.ok (.str key), u) →
      getItem u.heap (reprValue u.heap) (.dict r) (.str key) = .ok current →
      (evalExpr env e).run env call u = (.ok operand, x) →
      Run.onWorld (Work.onHeap (updateInPlace op current operand)) x = (.ok v, y) →
      r.index < y.heap.dicts.size →
      ∃ h', (update env op (.index container index) e).run env call s =
        (.ok (), { y with heap := h' }) ∧ SetsKey y.heap r key v h') := by
  have hlines (line : String) := soundLine_of_unbounded Bool.false_ne_true line
  have hregistry : Registry.Sound false registry := ⟨nofun, fun _ _ => nofun⟩
  have hs : ((Session.ofShell (.ofRegistry registry rounds) host).after lines).Sound false :=
    (sound_ofShell hregistry rounds host).after fun line _ => hlines line
  refine ⟨hs.heap.distinctKeys, fun line p hp => (hs.reaches (hlines line) hp).heap.distinctKeys,
    ?_, ?_⟩
  · intro env call container index r key v s t u
    exact run_assign_key
  · intro env call op container index e r key current operand v s t u x y
    exact run_update_key

/-- A dict display with a key that occurs twice, a command that reads a name, and an assignment and
an update of a key. -/
theorem dictKeys_after_display :
    let env : Env := ⟨.empty coreNames, .empty, 1, .merging⟩
    let s : State := ⟨[("d", .dict ⟨0⟩)], [], ⟨#[], #[[("a", .int 3), ("b", .int 2)]], #[]⟩,
      Host.ofFiles .empty⟩
    let target : Target := .index (.name "d") (.str "a")
    (∃ session, session = (Session.ofShell (.ofRegistry (.empty coreNames) 1)
      (.ofFiles .empty)).after
        ["d = \x7b'a': 1, 'b': 2, 'a': 3\x7d"] ∧
      session.shell.heap.dicts.size = 1 ∧ session.shell.heap.DistinctKeys ∧
      ∃ p, session.Reaches "d" p ∧ p.state.heap.DistinctKeys) ∧
    (∃ h', (assign env (.int 4) target).run env (callHere env s) s =
      (.ok (), { s with heap := h' }) ∧
      SetsKey s.heap ⟨0⟩ "a" (.int 4) h') ∧
    ∃ h', (update env .add target (.int 4)).run env (callHere env s) s =
        (.ok (), { s with heap := h' }) ∧
      SetsKey s.heap ⟨0⟩ "a" (.int 7) h' := by
  obtain ⟨hend, hpoints, hassign, hupdate⟩ := dictKeys_after (.empty coreNames) 1 (.ofFiles .empty)
    ["d = \x7b'a': 1, 'b': 2, 'a': 3\x7d"]
  intro env s target
  refine ⟨⟨_, rfl, by decide +kernel, hend, ?_⟩, ?_, ?_⟩
  · generalize Session.after _ _ = session at hpoints ⊢
    have hreaches : ∃ p, session.Reaches "d" p := by
      have hline : commandOf? "d" = some "d" := by decide +kernel
      have hparse : (parseExpression "d").toOption.isSome = true := by decide +kernel
      obtain ⟨e, hd⟩ : ∃ e, parseExpression "d" = .ok e := by
        cases hd : parseExpression "d" with
        | ok e => exact ⟨e, rfl⟩
        | error _ =>
          rw [hd] at hparse
          cases hparse
      exact ⟨_, session.reaches_start hline hd⟩
    obtain ⟨p, hp⟩ := hreaches
    exact ⟨p, hp, hpoints "d" p hp⟩
  · exact hassign env (callHere env s) (.name "d") (.str "a") ⟨0⟩ "a" (.int 4) s s s rfl rfl
      (by decide)
  · exact hupdate env (callHere env s) .add (.name "d") (.str "a") (.int 4) ⟨0⟩
      "a" (.int 3) (.int 4)
      (.int 7) s s s s s rfl rfl rfl rfl rfl (by decide)

end NoteShell
