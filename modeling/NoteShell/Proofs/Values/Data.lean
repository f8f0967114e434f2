import Mathlib.Tactic.Common
import Mathlib.Data.List.Forall2
import NoteShell.Script.Value

/-!
# Values as trees

A value of numbers, texts, lists and dicts stands for a tree, in which the containers are no
references any more but hold their parts. Two values that stand for the same tree are equal part by
part, whatever heaps they live in.

## Main definitions

* `Data` : trees of numbers, texts, lists and dicts.
* `dataWithin` : the tree that a value stands for, if it has no more than the given nested
  containers.
* `Heap.Extends` : a heap holds at least what another one holds.

## Main results

* `dataWithin_induction` : induction along a value that stands for a tree.
* `dataWithin_mono` : more containers in the heap, or more levels, leave the tree alone.
-/

namespace NoteShell.Script

/-- Trees of numbers, texts, lists and dicts. -/
inductive Data where
  | none
  | bool (value : Bool)
  | int (value : Int64)
  | str (text : String)
  | list (items : List Data)
  | dict (entries : List (String × Data))

/-- The tree that a value stands for, if there are at most `levels` containers inside each other. -/
def dataWithin (h : Heap) : (levels : Nat) → Value → Option Data
  | _, .none => some .none
  | _, .bool b => some (.bool b)
  | _, .int i => some (.int i)
  | _, .str s => some (.str s)
  | levels + 1, .list r => do
    let values ← h.lists[r.index]?
    let items ← values.toList.mapM (dataWithin h levels)
    return .list items
  | levels + 1, .dict r => do
    let entries ← h.dicts[r.index]?
    let entries ← entries.mapM fun e => (dataWithin h levels e.2).map (e.1, ·)
    return .dict entries
  | _, _ => none

variable {h h' : Heap} {n m : Nat} {v : Value} {d d' : Data}

/-- Actions that may give nothing, one for each item of a list. -/
theorem mapM_eq_some_iff {α β : Type} {f : α → Option β} {xs : List α} {ys : List β} :
    xs.mapM f = some ys ↔ List.Forall₂ (fun x y => f x = some y) xs ys := by
  induction xs generalizing ys with
  | nil => simp [eq_comm]
  | cons x xs ih =>
    rw [List.mapM_cons, List.forall₂_cons_left_iff]
    simp only [Option.bind_eq_bind, Option.bind_eq_some_iff, ih, Option.pure_def,
      Option.some.injEq]
    constructor
    · rintro ⟨y, hy, ys', hys', rfl⟩
      exact ⟨y, ys', hy, hys', rfl⟩
    · rintro ⟨y, ys', hy, hys', rfl⟩
      exact ⟨y, hy, ys', hys', rfl⟩

/-- What is implied by a relation to something holds of all items on the right. -/
theorem forall_mem_right {α β : Type} {R : α → β → Prop} {P : β → Prop} {xs : List α} {ys : List β}
    (h : List.Forall₂ R xs ys) (hP : ∀ x y, R x y → P y) : ∀ y ∈ ys, P y := by
  induction h with
  | nil => simp
  | cons hxy _ ih => exact List.forall_mem_cons.mpr ⟨hP _ _ hxy, ih⟩

/-- What holds of all items on the right can be added to a relation. -/
theorem forall₂_and_mem {α β : Type} {R : α → β → Prop} {P : β → Prop} {xs : List α} {ys : List β}
    (h : List.Forall₂ R xs ys) (hP : ∀ y ∈ ys, P y) :
    List.Forall₂ (fun x y => R x y ∧ P y) xs ys := by
  induction h with
  | nil => exact .nil
  | cons hxy _ ih =>
    rw [List.forall_mem_cons] at hP
    exact .cons ⟨hxy, hP.1⟩ (ih hP.2)

/-! ### The parts of a value -/

/-- The entries `entries` of a dict and the entries `data` of a tree have the same keys, and related
values. -/
def SameKeys (R : Value → Data → Prop) (entries : Entries) (data : List (String × Data)) : Prop :=
  List.Forall₂ (fun e p => e.1 = p.1 ∧ R e.2 p.2) entries data

theorem dataWithin_list {r : ListRef} :
    dataWithin h (n + 1) (.list r) = some d ↔
      ∃ values items, h.lists[r.index]? = some values ∧ d = .list items ∧
        List.Forall₂ (fun v d => dataWithin h n v = some d) values.toList items := by
  simp only [dataWithin, Option.bind_eq_bind, Option.bind_eq_some_iff, mapM_eq_some_iff,
    Option.pure_def, Option.some.injEq]
  constructor
  · rintro ⟨values, hvalues, items, hitems, rfl⟩
    exact ⟨values, items, hvalues, rfl, hitems⟩
  · rintro ⟨values, items, hvalues, rfl, hitems⟩
    exact ⟨values, hvalues, items, hitems, rfl⟩

theorem dataWithin_dict {r : DictRef} :
    dataWithin h (n + 1) (.dict r) = some d ↔
      ∃ entries data, h.dicts[r.index]? = some entries ∧ d = .dict data ∧
        SameKeys (fun v d => dataWithin h n v = some d) entries data := by
  have hentry (e : String × Value) (p : String × Data) :
      (dataWithin h n e.2).map (e.1, ·) = some p ↔ e.1 = p.1 ∧ dataWithin h n e.2 = some p.2 := by
    rw [Option.map_eq_some_iff]
    constructor
    · rintro ⟨d, hd, rfl⟩
      exact ⟨rfl, hd⟩
    · rintro ⟨hkey, hd⟩
      exact ⟨p.2, hd, Prod.ext hkey rfl⟩
  simp only [dataWithin, Option.bind_eq_bind, Option.bind_eq_some_iff, mapM_eq_some_iff, hentry,
    Option.pure_def, Option.some.injEq]
  constructor
  · rintro ⟨entries, hentries, data, hdata, rfl⟩
    exact ⟨entries, data, hentries, rfl, hdata⟩
  · rintro ⟨entries, data, hentries, rfl, hdata⟩
    exact ⟨entries, hentries, data, hdata, rfl⟩

/-- Induction along a value that stands for a tree. -/
@[elab_as_elim]
theorem dataWithin_induction {h : Heap} {motive : Nat → Value → Data → Prop}
    (none : ∀ n, motive n .none .none)
    (bool : ∀ n b, motive n (.bool b) (.bool b))
    (int : ∀ n i, motive n (.int i) (.int i))
    (str : ∀ n s, motive n (.str s) (.str s))
    (list : ∀ n r values items, h.lists[r.index]? = some values →
      List.Forall₂ (fun v d => dataWithin h n v = some d) values.toList items →
      List.Forall₂ (motive n) values.toList items → motive (n + 1) (.list r) (.list items))
    (dict : ∀ n r entries data, h.dicts[r.index]? = some entries →
      SameKeys (fun v d => dataWithin h n v = some d) entries data →
      SameKeys (motive n) entries data → motive (n + 1) (.dict r) (.dict data))
    {n : Nat} {v : Value} {d : Data} (hd : dataWithin h n v = some d) : motive n v d := by
  induction n generalizing v d with
  | zero =>
    cases v with
    | none => cases hd; exact none _
    | bool b => cases hd; exact bool _ b
    | int i => cases hd; exact int _ i
    | str s => cases hd; exact str _ s
    | _ => cases hd
  | succ n ih =>
    cases v with
    | none => cases hd; exact none _
    | bool b => cases hd; exact bool _ b
    | int i => cases hd; exact int _ i
    | str s => cases hd; exact str _ s
    | list r =>
      obtain ⟨values, items, hr, rfl, hitems⟩ := dataWithin_list.mp hd
      exact list n r values items hr hitems (hitems.imp fun _ _ => ih)
    | dict r =>
      obtain ⟨entries, data, hr, rfl, hdata⟩ := dataWithin_dict.mp hd
      exact dict n r entries data hr hdata (hdata.imp fun _ _ hp => ⟨hp.1, ih hp.2⟩)
    | _ => cases hd

/-! ### Larger heaps and more levels -/

theorem Heap.items_eq {r : ListRef} {values : Array Value} (hr : h.lists[r.index]? = some values) :
    h.items r = values := by
  simp [items, hr]

theorem Heap.entries_eq {r : DictRef} {entries : Entries} (hr : h.dicts[r.index]? = some entries) :
    h.entries r = entries := by
  simp [Heap.entries, hr]

/-- A heap holds at least the lists and dicts of another one. -/
structure Heap.Extends (h h' : Heap) : Prop where
  lists : ∀ (i : Nat) (values : Array Value), h.lists[i]? = some values → h'.lists[i]? = some values
  dicts : ∀ (i : Nat) (entries : Entries), h.dicts[i]? = some entries → h'.dicts[i]? = some entries

theorem Heap.Extends.refl (h : Heap) : h.Extends h := ⟨fun _ _ => id, fun _ _ => id⟩

theorem Heap.Extends.trans {h'' : Heap} (hext : h.Extends h') (hext' : h'.Extends h'') :
    h.Extends h'' :=
  ⟨fun i values hi => hext'.lists i values (hext.lists i values hi),
    fun i entries hi => hext'.dicts i entries (hext.dicts i entries hi)⟩

theorem Heap.extends_newList (h : Heap) (items : Array Value) : h.Extends (h.newList items).2 := by
  refine ⟨fun i values hi => ?_, fun _ _ => id⟩
  have hne : i ≠ h.lists.size := Nat.ne_of_lt (Array.getElem?_eq_some_iff.mp hi).1
  simpa [newList, Array.getElem?_push, hne] using hi

theorem Heap.extends_newDict (h : Heap) (entries : Entries) : h.Extends (h.newDict entries).2 := by
  refine ⟨fun _ _ => id, fun i entries hi => ?_⟩
  have hne : i ≠ h.dicts.size := Nat.ne_of_lt (Array.getElem?_eq_some_iff.mp hi).1
  simpa [newDict, Array.getElem?_push, hne] using hi

/-- More containers in the heap, or more levels, leave the tree of a value alone. -/
theorem dataWithin_mono (hext : h.Extends h') (hle : n ≤ m) (hd : dataWithin h n v = some d) :
    dataWithin h' m v = some d := by
  refine dataWithin_induction
    (motive := fun n v d => ∀ m, n ≤ m → dataWithin h' m v = some d)
    ?none ?bool ?int ?str ?list ?dict hd m hle
  case list =>
    intro n r values items hr _ ih m hle
    obtain ⟨m, rfl⟩ := Nat.exists_eq_add_of_le' hle
    exact dataWithin_list.mpr ⟨values, items, hext.lists _ _ hr, rfl,
      ih.imp fun _ _ hp => hp _ (Nat.le_add_left n m)⟩
  case dict =>
    intro n r entries data hr _ ih m hle
    obtain ⟨m, rfl⟩ := Nat.exists_eq_add_of_le' hle
    exact dataWithin_dict.mpr ⟨entries, data, hext.dicts _ _ hr, rfl,
      ih.imp fun _ _ hp => ⟨hp.1, hp.2 _ (Nat.le_add_left n m)⟩⟩
  all_goals
    intros
    rw [dataWithin]

/-- A value stands for one tree. -/
theorem dataWithin_unique (hd : dataWithin h n v = some d) (hd' : dataWithin h m v = some d') :
    d = d' := by
  have hn := dataWithin_mono (.refl h) (Nat.le_max_left n m) hd
  have hm := dataWithin_mono (.refl h) (Nat.le_max_right n m) hd'
  exact Option.some.inj (hn.symm.trans hm)

end NoteShell.Script
