/-!
# Plans of sorts

A sort learns about the items in its row only by comparing two of them at a time, so it is a plan
that says which positions to compare next, given the answers so far. What is asked of such a plan is
that it keeps all items, and that it sorts them and leaves equal ones in their order where the
answers are those of an order of all items. Where they are not, the items may come in any order, and
the plan may give up.

## Main definitions

* `SortPlan` : what to compare next.
* `SortPlan.outcome` : where a plan leads for given answers.
* `Sorter` : a plan for every number of items.
* `Sorter.insertion`, `Sorter.merging` : two sorters.
-/

namespace NoteShell.Script

/-- How to sort a row of items by comparisons. -/
inductive SortPlan (count : Nat) where
  | done (sorted : List (Fin count))
  | compare (i j : Fin count) (next : Ordering → SortPlan count)
  | giveUp

/-- An item comes before another one in a sorted row: it is less, or equal and before it already. -/
def ComesBefore {count : Nat} (answer : Fin count → Fin count → Ordering) (i j : Fin count) : Prop :=
  answer i j = .lt ∨ answer i j = .eq ∧ i < j

variable {count : Nat}

/-- Where a plan leads when its comparisons are answered. -/
def SortPlan.outcome (answer : Fin count → Fin count → Ordering) :
    SortPlan count → Option (List (Fin count))
  | .done sorted => some sorted
  | .compare i j next => (next (answer i j)).outcome answer
  | .giveUp => none

/-- A way to sort any number of items. -/
structure Sorter where
  plan : (count : Nat) → SortPlan count
  perm : ∀ {count : Nat} {answer : Fin count → Fin count → Ordering} {sorted : List (Fin count)},
    (plan count).outcome answer = some sorted → sorted.Perm (List.finRange count)
  sorts : ∀ {count : Nat} (answer : Fin count → Fin count → Ordering) [Std.TransCmp answer],
    ∃ sorted, (plan count).outcome answer = some sorted ∧ sorted.Pairwise (ComesBefore answer)

section Order

variable {answer : Fin count → Fin count → Ordering} {i j k : Fin count}

theorem ComesBefore.trans [Std.TransCmp answer] (hij : ComesBefore answer i j)
    (hjk : ComesBefore answer j k) : ComesBefore answer i k := by
  rcases hij with hij | ⟨hij, hlt⟩
  · rcases hjk with hjk | ⟨hjk, -⟩
    · exact .inl (Std.TransCmp.lt_trans hij hjk)
    · exact .inl (Std.TransCmp.lt_of_lt_of_eq hij hjk)
  · rcases hjk with hjk | ⟨hjk, hlt'⟩
    · exact .inl (Std.TransCmp.lt_of_eq_of_lt hij hjk)
    · exact .inr ⟨Std.TransCmp.eq_trans hij hjk, by omega⟩

theorem not_comesBefore_self [Std.ReflCmp answer] : ¬ ComesBefore answer i i := by
  have hself : answer i i = .eq := Std.ReflCmp.compare_self
  simp [ComesBefore, hself]

/-- The earlier of two items comes first unless the later one is less. -/
theorem comesBefore_of_not_lt [Std.OrientedCmp answer] (hlt : i < j) (hne : answer j i ≠ .lt) :
    ComesBefore answer i j := by
  have hswap : answer i j = (answer j i).swap := Std.OrientedCmp.eq_swap
  cases hji : answer j i with
  | lt => exact absurd hji hne
  | eq => exact .inr ⟨by rw [hswap, hji]; rfl, hlt⟩
  | gt => exact .inl (by rw [hswap, hji]; rfl)

end Order

/-! ### Insertion -/

/-- Insert an item into a sorted row that is in reverse, and go on with it. The item is compared
with those before it from the nearest on. -/
def insertPlan (i : Fin count) : (row : List (Fin count)) →
    (next : List (Fin count) → SortPlan count) → SortPlan count
  | [], next => next [i]
  | j :: row, next =>
    .compare i j fun
      | .lt => insertPlan i row fun inserted => next (j :: inserted)
      | _ => next (i :: j :: row)

/-- Insert the items of a row one by one into a sorted row that is in reverse. -/
def insertionPlan : (sorted row : List (Fin count)) → SortPlan count
  | sorted, [] => .done sorted.reverse
  | sorted, i :: row => insertPlan i sorted fun sorted => insertionPlan sorted row

/-- An item is inserted somewhere. Where the row is sorted, it is inserted where it belongs. -/
theorem exists_inserted (answer : Fin count → Fin count → Ordering) (i : Fin count) :
    ∀ row : List (Fin count), ∃ inserted : List (Fin count), inserted.Perm (i :: row) ∧
      (∀ next, (insertPlan i row next).outcome answer = (next inserted).outcome answer) ∧
      (Std.TransCmp answer → (∀ j ∈ row, j < i) → row.Pairwise (fun j k => ComesBefore answer k j) →
        inserted.Pairwise fun j k => ComesBefore answer k j)
  | [] => ⟨[i], .refl _, fun _ => rfl, fun _ _ _ => List.pairwise_singleton _ _⟩
  | j :: row => by
    by_cases hlt : answer i j = .lt
    · obtain ⟨inserted, hperm, hnext, hsorted⟩ := exists_inserted answer i row
      refine ⟨j :: inserted, (hperm.cons j).trans (.swap i j row), fun next => ?_,
        fun _ hbelow hrow => ?_⟩
      · rw [insertPlan, SortPlan.outcome, hlt]
        exact hnext _
      · obtain ⟨hfirst, hrest⟩ := List.pairwise_cons.mp hrow
        refine List.pairwise_cons.mpr ⟨fun k hk => ?_,
          hsorted ‹_› (fun k hk => hbelow k (List.mem_cons_of_mem j hk)) hrest⟩
        rcases List.mem_cons.mp (hperm.mem_iff.mp hk) with rfl | hk
        · exact .inl hlt
        · exact hfirst k hk
    · refine ⟨i :: j :: row, .refl _, fun next => ?_, fun _ hbelow hrow => ?_⟩
      · rw [insertPlan, SortPlan.outcome]
        cases hij : answer i j with
        | lt => exact absurd hij hlt
        | eq => rfl
        | gt => rfl
      · have hji := comesBefore_of_not_lt (hbelow j (List.mem_cons_self ..)) hlt
        refine List.pairwise_cons.mpr ⟨fun k hk => ?_, hrow⟩
        rcases List.mem_cons.mp hk with rfl | hk
        · exact hji
        · exact ((List.pairwise_cons.mp hrow).1 k hk).trans hji

/-- Insertion always comes to an end, and with a sorted row where the answers are those of an
order. -/
theorem exists_insertion (answer : Fin count → Fin count → Ordering) :
    ∀ (row sorted : List (Fin count)), ∃ result : List (Fin count),
      (insertionPlan sorted row).outcome answer = some result ∧ result.Perm (sorted ++ row) ∧
      (Std.TransCmp answer → (∀ i ∈ sorted, ∀ j ∈ row, i < j) → row.Pairwise (· < ·) →
        sorted.Pairwise (fun j k => ComesBefore answer k j) → result.Pairwise (ComesBefore answer))
  | [], sorted =>
    ⟨sorted.reverse, rfl, by simp [List.reverse_perm], fun _ _ _ h => List.pairwise_reverse.mpr h⟩
  | i :: row, sorted => by
    obtain ⟨inserted, hperm, hnext, hinserted⟩ := exists_inserted answer i sorted
    obtain ⟨result, hout, hresult, hsorts⟩ := exists_insertion answer row inserted
    refine ⟨result, (hnext _).trans hout, ?_, fun _ hbelow hrow hsorted => ?_⟩
    · exact hresult.trans ((hperm.append_right row).trans List.perm_middle.symm)
    · obtain ⟨hfirst, hrest⟩ := List.pairwise_cons.mp hrow
      refine hsorts ‹_› (fun k hk j hj => ?_) hrest
        (hinserted ‹_› (fun k hk => hbelow k hk i (List.mem_cons_self ..)) hsorted)
      rcases List.mem_cons.mp (hperm.mem_iff.mp hk) with rfl | hk
      · exact hfirst j hj
      · exact hbelow k hk j (List.mem_cons_of_mem i hj)

theorem pairwise_finRange (count : Nat) : (List.finRange count).Pairwise (· < ·) := by
  rw [List.pairwise_iff_getElem]
  intro i j hi hj hij
  simpa using hij

/-- Insert the items one by one. -/
def Sorter.insertion : Sorter where
  plan count := insertionPlan [] (List.finRange count)
  perm {count answer sorted} houtcome := by
    obtain ⟨result, hresult, hperm, -⟩ := exists_insertion answer (List.finRange count) []
    cases hresult.symm.trans houtcome
    exact hperm
  sorts {count} answer _ := by
    obtain ⟨result, hresult, -, hsorted⟩ := exists_insertion answer (List.finRange count) []
    exact ⟨result, hresult, hsorted ‹_› (by simp) (pairwise_finRange count) .nil⟩

/-! ### Merging -/

/-- Merge two sorted rows, after the items in `merged`, which are in reverse. -/
def mergePlan (next : List (Fin count) → SortPlan count) :
    (merged left right : List (Fin count)) → SortPlan count
  | merged, [], right => next (merged.reverse ++ right)
  | merged, left, [] => next (merged.reverse ++ left)
  | merged, i :: left, j :: right =>
    .compare j i fun
      | .lt => mergePlan next (j :: merged) (i :: left) right
      | _ => mergePlan next (i :: merged) left (j :: right)
termination_by _ left right => left.length + right.length

/-- Sort a row by merging its sorted halves, and go on with it. -/
def mergingPlan (row : List (Fin count)) (next : List (Fin count) → SortPlan count) :
    SortPlan count :=
  if row.length ≤ 1 then next row
  else
    mergingPlan (row.take (row.length / 2)) fun left =>
      mergingPlan (row.drop (row.length / 2)) fun right => mergePlan next [] left right
termination_by row.length
decreasing_by all_goals simp only [List.length_take, List.length_drop]; omega

/-- Two rows are merged into one. Where they are sorted and one was before the other, so is that
one. -/
theorem exists_merged (answer : Fin count → Fin count → Ordering)
    (merged left right : List (Fin count)) :
    ∃ rest : List (Fin count), rest.Perm (left ++ right) ∧
      (∀ next, (mergePlan next merged left right).outcome answer =
        (next (merged.reverse ++ rest)).outcome answer) ∧
      (Std.TransCmp answer → (∀ i ∈ left, ∀ j ∈ right, i < j) →
        left.Pairwise (ComesBefore answer) → right.Pairwise (ComesBefore answer) →
        rest.Pairwise (ComesBefore answer)) := by
  fun_induction mergePlan (fun _ => (SortPlan.giveUp : SortPlan count)) merged left right with
  | case1 merged right => exact ⟨right, .refl _, fun next => by rw [mergePlan], fun _ _ _ h => h⟩
  | case2 merged left hne =>
    refine ⟨left, by simp, fun next => ?_, fun _ _ h _ => h⟩
    cases left with
    | nil => exact absurd rfl hne
    | cons i left => rw [mergePlan]; simp
  | case3 merged i left j right ihright ihleft =>
    by_cases hlt : answer j i = .lt
    · obtain ⟨rest, hperm, hnext, hsorts⟩ := ihright
      refine ⟨j :: rest, (hperm.cons j).trans List.perm_middle.symm, fun next => ?_,
        fun _ hbelow hleft hright => ?_⟩
      · rw [mergePlan, SortPlan.outcome, hlt]
        simpa using hnext next
      · obtain ⟨hi, -⟩ := List.pairwise_cons.mp hleft
        obtain ⟨hj, hright'⟩ := List.pairwise_cons.mp hright
        refine List.pairwise_cons.mpr ⟨fun k hk => ?_, hsorts ‹_›
          (fun k hk l hl => hbelow k hk l (List.mem_cons_of_mem j hl)) hleft hright'⟩
        rcases List.mem_append.mp (hperm.mem_iff.mp hk) with hk | hk
        · rcases List.mem_cons.mp hk with rfl | hk
          · exact .inl hlt
          · exact ComesBefore.trans (.inl hlt) (hi k hk)
        · exact hj k hk
    · obtain ⟨rest, hperm, hnext, hsorts⟩ := ihleft
      refine ⟨i :: rest, hperm.cons i, fun next => ?_, fun _ hbelow hleft hright => ?_⟩
      · rw [mergePlan, SortPlan.outcome]
        cases hji : answer j i with
        | lt => exact absurd hji hlt
        | eq | gt => simpa using hnext next
      · have hij := comesBefore_of_not_lt
          (hbelow i (List.mem_cons_self ..) j (List.mem_cons_self ..)) hlt
        obtain ⟨hi, hleft'⟩ := List.pairwise_cons.mp hleft
        obtain ⟨hj, -⟩ := List.pairwise_cons.mp hright
        refine List.pairwise_cons.mpr ⟨fun k hk => ?_, hsorts ‹_›
          (fun k hk l hl => hbelow k (List.mem_cons_of_mem i hk) l hl) hleft' hright⟩
        rcases List.mem_append.mp (hperm.mem_iff.mp hk) with hk | hk
        · exact hi k hk
        · rcases List.mem_cons.mp hk with rfl | hk
          · exact hij
          · exact hij.trans (hj k hk)

/-- A row is sorted by merging. -/
theorem exists_merging (answer : Fin count → Fin count → Ordering) (row : List (Fin count)) :
    ∃ sorted : List (Fin count), sorted.Perm row ∧
      (∀ next, (mergingPlan row next).outcome answer = (next sorted).outcome answer) ∧
      (Std.TransCmp answer → row.Pairwise (· < ·) → sorted.Pairwise (ComesBefore answer)) := by
  induction hn : row.length using Nat.strongRecOn generalizing row with
  | ind n ih =>
    subst hn
    by_cases hshort : row.length ≤ 1
    · refine ⟨row, .refl _, fun next => by rw [mergingPlan, if_pos hshort], fun _ _ => ?_⟩
      match row, hshort with
      | [], _ => exact .nil
      | [i], _ => exact List.pairwise_singleton _ _
    · obtain ⟨left, hleft, hnextl, hsortl⟩ :=
        ih _ (by simp only [List.length_take]; omega) (row.take (row.length / 2)) rfl
      obtain ⟨right, hright, hnextr, hsortr⟩ :=
        ih _ (by simp only [List.length_drop]; omega) (row.drop (row.length / 2)) rfl
      obtain ⟨sorted, hsorted, hnext, hmerges⟩ := exists_merged answer [] left right
      have hhalves := List.take_append_drop (row.length / 2) row
      refine ⟨sorted, hsorted.trans ((hleft.append hright).trans (.of_eq hhalves)), fun next => ?_,
        fun _ hrow => ?_⟩
      · rw [mergingPlan, if_neg hshort, hnextl, hnextr]
        exact hnext next
      · rw [← hhalves] at hrow
        obtain ⟨hrowl, hrowr, hbelow⟩ := List.pairwise_append.mp hrow
        exact hmerges ‹_›
          (fun i hi j hj => hbelow i (hleft.mem_iff.mp hi) j (hright.mem_iff.mp hj))
          (hsortl ‹_› hrowl) (hsortr ‹_› hrowr)

/-- Merge ever longer rows. -/
def Sorter.merging : Sorter where
  plan count := mergingPlan (List.finRange count) .done
  perm {count answer sorted} houtcome := by
    obtain ⟨result, hperm, hnext, -⟩ := exists_merging answer (List.finRange count)
    cases (hnext .done).symm.trans houtcome
    exact hperm
  sorts {count} answer _ := by
    obtain ⟨result, -, hnext, hsorted⟩ := exists_merging answer (List.finRange count)
    exact ⟨result, hnext .done, hsorted ‹_› (pairwise_finRange count)⟩

end NoteShell.Script
