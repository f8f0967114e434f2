import NoteShell.Proofs.Execution.Discipline
import NoteShell.Proofs.Parsing.Placement

/-!
# Regions of the heap

A value refers to at most one list, dict or function, and what that holds are values again. A region
is a set of references. It is closed in a heap if everything that its members hold is in the region,
its functions contain no loop with a test, and all references are in it that the heap does not use
yet.

Operations on values in a closed region give values in the region and leave it closed. A program can
therefore call no function but those which it could reach when it began, and those that it defines.

## Main definitions

* `Value.ref?` : what a value refers to.
* `Stmt.WhileFree` : no loop with a test stands in a statement.
* `State.Reachable` : what can be reached from the names of a state.
* `Region.Closed` : regions that operations do not leave.
* `Region.discipline` : programs that do not leave a region.

## Main results

* `closed_reachable` : what is reachable is closed, with the references that are not used yet.
-/

namespace NoteShell.Grammar

/-- No loop with a test stands in a statement, nor in a function that is defined in it. -/
def Stmt.WhileFree (s : Stmt) : Prop :=
  ∀ path test body, ¬ s.Encloses path (.whileLoop test body)

end NoteShell.Grammar

namespace NoteShell.Script

open NoteShell.Grammar

/-! ### References -/

/-- What a value can refer to. -/
inductive Ref where
  | list (r : ListRef)
  | dict (r : DictRef)
  | function (r : FunctionRef)

/-- What a value refers to. A method of a list or dict refers to the list or dict. -/
def Value.ref? : Value → Option Ref
  | .list r | .listMethod r _ => some (.list r)
  | .dict r | .dictMethod r _ => some (.dict r)
  | .function r => some (.function r)
  | _ => Option.none

/-- What a list, a dict or a function holds: its items, its values, and its defaults. -/
inductive Heap.Holds (h : Heap) : Ref → Value → Prop
  | item {r v} (hv : v ∈ h.items r) : Holds h (.list r) v
  | entry {r e} (he : e ∈ h.entries r) : Holds h (.dict r) e.2
  | default {r p v} (hp : p ∈ (h.function r).params) (hv : v ∈ p.2) : Holds h (.function r) v

/-- The values that the names of a state are bound to, in all calls. -/
inductive State.Binds (s : State) : Value → Prop
  | global {e} (he : e ∈ s.globals) : Binds s e.2
  | local {frame e} (hframe : frame ∈ s.frames) (he : e ∈ frame.locals) : Binds s e.2

/-- What can be reached from the names of a state. -/
inductive State.Reachable (s : State) : Ref → Prop
  | bound {v r} (hv : s.Binds v) (hr : v.ref? = some r) : Reachable s r
  | held {r v r'} (h : Reachable s r) (hv : s.heap.Holds r v) (hr : v.ref? = some r') :
    Reachable s r'

/-- A reference that a heap does not use yet. -/
def Heap.Unused (h : Heap) : Ref → Prop
  | .list r => h.lists.size ≤ r.index
  | .dict r => h.dicts.size ≤ r.index
  | .function r => h.functions.size ≤ r.index

/-- A set of references. -/
abbrev Region := Ref → Prop

variable {G : Region} {h : Heap} {v : Value}

/-- A value refers to nothing outside of a region. -/
def Value.In (G : Region) (v : Value) : Prop := ∀ r ∈ v.ref?, G r

/-- The members of a region hold nothing outside of it and do not loop with a test, and everything
that a heap does not use yet is in the region. -/
structure Region.Closed (G : Region) (h : Heap) : Prop where
  held : ∀ {r v}, G r → h.Holds r v → v.In G
  bodies : ∀ {r}, G (.function r) → ∀ s ∈ (h.function r).body, s.WhileFree
  unused : ∀ {r}, h.Unused r → G r

theorem in_of_ref?_eq_none (hv : v.ref? = none) : v.In G := by
  intro r hr
  rw [Option.mem_def, hv] at hr
  cases hr

theorem in_of_isNumber (hv : v.isNumber = true) : v.In G :=
  in_of_ref?_eq_none (by cases v <;> first | cases hv; done | rfl)

theorem in_list {r : ListRef} : (Value.list r).In G ↔ G (.list r) :=
  ⟨fun hr => hr _ rfl, by rintro hr _ ⟨⟩; exact hr⟩

theorem in_dict {r : DictRef} : (Value.dict r).In G ↔ G (.dict r) :=
  ⟨fun hr => hr _ rfl, by rintro hr _ ⟨⟩; exact hr⟩

theorem in_function {r : FunctionRef} : (Value.function r).In G ↔ G (.function r) :=
  ⟨fun hr => hr _ rfl, by rintro hr _ ⟨⟩; exact hr⟩

/-! ### What is reachable -/

/-- What a reference that is not used yet would hold. -/
theorem not_holds_of_unused {r : Ref} (hr : h.Unused r) : ¬ h.Holds r v := by
  rintro (hv | he | ⟨hp, -⟩)
  · rw [Heap.items, Array.getD_eq_getD_getElem?, Array.getElem?_eq_none hr] at hv
    exact absurd hv (Array.not_mem_empty _)
  · rw [Heap.entries, Array.getD_eq_getD_getElem?, Array.getElem?_eq_none hr] at he
    exact List.not_mem_nil he
  · rw [Heap.function, Array.getD_eq_getD_getElem?, Array.getElem?_eq_none hr] at hp
    exact List.not_mem_nil hp

/-- What can be reached from a state, and what its heap does not use yet. -/
def State.region (s : State) : Region := fun r => s.Reachable r ∨ s.heap.Unused r

/-- If no function that can be reached loops with a test, what can be reached is closed. -/
theorem closed_reachable {s : State}
    (hs : ∀ r, s.Reachable (.function r) → ∀ stmt ∈ (s.heap.function r).body, stmt.WhileFree) :
    s.region.Closed s.heap := by
  refine ⟨?_, ?_, fun hr => .inr hr⟩
  · rintro r v (hr | hr) hv r' hr'
    · exact .inl (.held hr hv hr')
    · exact absurd hv (not_holds_of_unused hr)
  · rintro r (hr | hr)
    · exact hs r hr
    · have hfunction : s.heap.function r = ⟨"", [], []⟩ := by
        rw [Heap.function, Array.getD_eq_getD_getElem?, Array.getElem?_eq_none hr]
        rfl
      simp [hfunction]

theorem in_region_of_binds {s : State} (hv : s.Binds v) : v.In s.region :=
  fun _ hr => .inl (.bound hv hr)

/-! ### Larger heaps -/

namespace Region.Closed

variable (hG : G.Closed h)

include hG

theorem items {r : ListRef} (hr : G (.list r)) : ∀ v ∈ h.items r, v.In G :=
  fun _ hv => hG.held hr (.item hv)

theorem entries {r : DictRef} (hr : G (.dict r)) : ∀ e ∈ h.entries r, e.2.In G :=
  fun _ he => hG.held hr (.entry he)

theorem defaults {r : FunctionRef} (hr : G (.function r)) :
    ∀ p ∈ (h.function r).params, ∀ v ∈ p.2, v.In G :=
  fun _ hp _ hv => hG.held hr (.default hp hv)

end Region.Closed

theorem getD_push {α : Type} (xs : Array α) (a default : α) (n : Nat) :
    (xs.push a).getD n default = a ∨ (xs.push a).getD n default = xs.getD n default := by
  simp only [Array.getD_eq_getD_getElem?, Array.getElem?_push]
  split_ifs
  · exact .inl rfl
  · exact .inr rfl

theorem getD_modify {α : Type} (xs : Array α) (i : Nat) (f : α → α) (default : α) (n : Nat) :
    (xs.modify i f).getD n default = f (xs.getD i default) ∨
      (xs.modify i f).getD n default = xs.getD n default := by
  simp only [Array.getD_eq_getD_getElem?, Array.getElem?_modify]
  split_ifs with hi
  · subst hi
    cases xs[i]? with
    | none => exact .inr rfl
    | some a => exact .inl rfl
  · exact .inr rfl

theorem Heap.items_newList_cases (h : Heap) (items : Array Value) (r : ListRef) :
    (h.newList items).2.items r = items ∨ (h.newList items).2.items r = h.items r :=
  getD_push h.lists items #[] r.index

theorem Heap.entries_newDict_cases (h : Heap) (es : Entries) (r : DictRef) :
    (h.newDict es).2.entries r = es ∨ (h.newDict es).2.entries r = h.entries r :=
  getD_push h.dicts es [] r.index

theorem Heap.function_newFunction_cases (h : Heap) (f : Function) (r : FunctionRef) :
    (h.newFunction f).2.function r = f ∨ (h.newFunction f).2.function r = h.function r :=
  getD_push h.functions f ⟨"", [], []⟩ r.index

theorem Heap.items_updateList_cases (h : Heap) (r : ListRef) (f : Array Value → Array Value)
    (s : ListRef) :
    (h.updateList r f).items s = f (h.items r) ∨ (h.updateList r f).items s = h.items s :=
  getD_modify h.lists r.index f #[] s.index

theorem Heap.entries_updateDict_cases (h : Heap) (r : DictRef) (f : Entries → Entries)
    (s : DictRef) :
    (h.updateDict r f).entries s = f (h.entries r) ∨ (h.updateDict r f).entries s = h.entries s :=
  getD_modify h.dicts r.index f [] s.index

namespace Region.Closed

variable (hG : G.Closed h)

include hG

/-- A new list holds its items, and what was there before is as it was. -/
theorem newList {items : Array Value} (hitems : ∀ v ∈ items, v.In G) :
    (h.newList items).1.In G ∧ G.Closed (h.newList items).2 := by
  have hsize : h.lists.size ≤ (h.lists.push items).size := by simp
  refine ⟨in_list.mpr (hG.unused (Nat.le_refl _)), ?_, hG.bodies, ?_⟩
  · rintro _ v hr (hv | he | hp)
    · rcases h.items_newList_cases items _ with heq | heq
      · exact hitems v (heq ▸ hv)
      · exact hG.held hr (.item (heq ▸ hv))
    · exact hG.held hr (.entry he)
    · exact hG.held hr (.default hp ‹_›)
  · rintro (r | r | r) hr
    · exact hG.unused (Nat.le_trans hsize hr)
    · exact hG.unused hr
    · exact hG.unused hr

theorem newDict {es : Entries} (hes : ∀ e ∈ es, e.2.In G) :
    (h.newDict es).1.In G ∧ G.Closed (h.newDict es).2 := by
  have hsize : h.dicts.size ≤ (h.dicts.push es).size := by simp
  refine ⟨in_dict.mpr (hG.unused (Nat.le_refl _)), ?_, hG.bodies, ?_⟩
  · rintro _ v hr (hv | he | hp)
    · exact hG.held hr (.item hv)
    · rcases h.entries_newDict_cases es _ with heq | heq
      · exact hes _ (heq ▸ he)
      · exact hG.held hr (.entry (heq ▸ he))
    · exact hG.held hr (.default hp ‹_›)
  · rintro (r | r | r) hr
    · exact hG.unused hr
    · exact hG.unused (Nat.le_trans hsize hr)
    · exact hG.unused hr

/-- A new function holds its defaults. -/
theorem newFunction {f : Function} (hdefaults : ∀ p ∈ f.params, ∀ v ∈ p.2, v.In G)
    (hbody : ∀ s ∈ f.body, s.WhileFree) :
    (h.newFunction f).1.In G ∧ G.Closed (h.newFunction f).2 := by
  have hsize : h.functions.size ≤ (h.functions.push f).size := by simp
  refine ⟨in_function.mpr (hG.unused (Nat.le_refl _)), ?_, ?_, ?_⟩
  · rintro _ v hr (hv | he | ⟨hp, hv⟩)
    · exact hG.held hr (.item hv)
    · exact hG.held hr (.entry he)
    · rcases h.function_newFunction_cases f _ with heq | heq
      · exact hdefaults _ (heq ▸ hp) v hv
      · exact hG.held hr (.default (heq ▸ hp) hv)
  · intro r hr s hs
    rcases h.function_newFunction_cases f r with heq | heq
    · exact hbody s (heq ▸ hs)
    · exact hG.bodies hr s (heq ▸ hs)
  · rintro (r | r | r) hr
    · exact hG.unused hr
    · exact hG.unused hr
    · exact hG.unused (Nat.le_trans hsize hr)

/-- A list that is changed holds what it is changed to. -/
theorem updateList {r : ListRef} {f : Array Value → Array Value}
    (hf : ∀ v ∈ f (h.items r), v.In G) : G.Closed (h.updateList r f) := by
  refine ⟨?_, hG.bodies, ?_⟩
  · rintro _ v hs (hv | he | hp)
    · rcases h.items_updateList_cases r f _ with heq | heq
      · exact hf v (heq ▸ hv)
      · exact hG.held hs (.item (heq ▸ hv))
    · exact hG.held hs (.entry he)
    · exact hG.held hs (.default hp ‹_›)
  · rintro (s | s | s) hs
    · exact hG.unused (Nat.le_trans (Nat.le_of_eq Array.size_modify.symm) hs)
    · exact hG.unused hs
    · exact hG.unused hs

theorem updateDict {r : DictRef} {f : Entries → Entries}
    (hf : ∀ e ∈ f (h.entries r), e.2.In G) : G.Closed (h.updateDict r f) := by
  refine ⟨?_, hG.bodies, ?_⟩
  · rintro _ v hs (hv | he | hp)
    · exact hG.held hs (.item hv)
    · rcases h.entries_updateDict_cases r f _ with heq | heq
      · exact hf _ (heq ▸ he)
      · exact hG.held hs (.entry (heq ▸ he))
    · exact hG.held hs (.default hp ‹_›)
  · rintro (s | s | s) hs
    · exact hG.unused hs
    · exact hG.unused (Nat.le_trans (Nat.le_of_eq Array.size_modify.symm) hs)
    · exact hG.unused hs

end Region.Closed

/-! ### The discipline of a region -/

/-- Programs that go on with values in a region, and do not loop with a test. -/
def Region.discipline (G : Region) : Discipline where
  value := Value.In G
  key _ := True
  entries es := ∀ e ∈ es, e.2.In G
  heap := G.Closed
  means _ := Value.In G
  expr _ := True
  stmt := Stmt.WhileFree
  runsOut := False

end NoteShell.Script
