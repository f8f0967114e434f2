import Mathlib.Data.Set.Card
import NoteShell.Proofs.Execution.Run
import NoteShell.Proofs.Values.Methods
import NoteShell.Proofs.Values.Ordering

/-!
# Sorted lists

Sorting gives the items of a list in order, or fails where two of them have no order. It compares
few of the pairs of items, but that all its comparisons had an answer means that all pairs have an
order: two items without one could come either way round, with no other answer changed, and the sort
would have put them into one place for both. Items that are equal stay as they stand in the list, in
both directions, so that the first item of a sorted list is the one that is found as the least or
the greatest of all.

## Main definitions

* `Consistent` : orders that are transitive, and opposite from the other side.
* `byRank` : an order of all items, of which an order of some is a part.
* `IsStableSort` : the items of a list in order.
* `HasUnordered` : two items of a list have no order.

## Main results

* `Consistent.exists_answers` : items without an order may come either way round.
* `sortItems_of_ordered`, `sortItems_of_unordered` : what sorting gives, and when it fails.
* `bestOf_eq` : the best of some values is the first of them in order.
* `sort_and_extremes` : sorting a list, and its least and its greatest item.
-/

namespace NoteShell.Script

/-! ### Consistent orders -/

/-- An order of some pairs that is opposite from the other side, goes on through equal items, and is
transitive. What has an order to anything is equal to itself. -/
structure Consistent {ι : Type} (order : ι → ι → Option Ordering) : Prop where
  swap : ∀ i j, order j i = (order i j).map Ordering.swap
  self : ∀ {i j o}, order i j = some o → order i i = some .eq
  eq_left : ∀ {i j} k, order i j = some .eq → order i k = order j k
  lt_trans : ∀ {i j k}, order i j = some .lt → order j k = some .lt → order i k = some .lt

theorem Form.consistent_order : Consistent Form.order where
  swap := order_swap
  self := order_self
  eq_left _ hij := by rw [eq_of_order_eq _ _ hij]
  lt_trans := order_trans _ _ _

/-- An item is not after another one: it is the same one, or known to be less or equal. -/
def NotAfter {ι : Type} (order : ι → ι → Option Ordering) (i j : ι) : Prop :=
  i = j ∨ order i j = some .lt ∨ order i j = some .eq

theorem inDirection_inDirection (reverse : Bool) : Function.Involutive (inDirection reverse) := by
  intro o
  cases reverse
  · rfl
  · exact Ordering.swap_swap

theorem inDirection_injective (reverse : Bool) : Function.Injective (inDirection reverse) :=
  (inDirection_inDirection reverse).injective

theorem inDirection_eq (reverse : Bool) : inDirection reverse .eq = .eq := by cases reverse <;> rfl

namespace Consistent

variable {ι κ : Type} {order : ι → ι → Option Ordering} {i j k : ι}

theorem comap (horder : Consistent order) (f : κ → ι) :
    Consistent fun i j => order (f i) (f j) where
  swap i j := horder.swap (f i) (f j)
  self hij := horder.self hij
  eq_left k hij := horder.eq_left (f k) hij
  lt_trans hij hjk := horder.lt_trans hij hjk

variable (horder : Consistent order)

include horder

theorem swap_eq_some {o : Ordering} (hij : order i j = some o) : order j i = some o.swap := by
  rw [horder.swap i j, hij]
  rfl

theorem eq_right (hjk : order j k = some .eq) : order i j = order i k := by
  rw [horder.swap j i, horder.swap k i, horder.eq_left i hjk]

/-- An order in the reverse direction is one. -/
theorem directed (reverse : Bool) :
    Consistent fun i j => (order i j).map (inDirection reverse) := by
  have hiff {i j : ι} {o : Ordering} : (order i j).map (inDirection reverse) = some o ↔
      order i j = some (inDirection reverse o) := by
    rw [Option.map_eq_some_iff]
    constructor
    · rintro ⟨o', ho', rfl⟩
      rwa [inDirection_inDirection]
    · exact fun ho => ⟨_, ho, inDirection_inDirection reverse o⟩
  refine ⟨fun i j => ?_, fun hij => ?_, fun k hij => ?_, fun {i j k} hij hjk => ?_⟩
  · rw [horder.swap i j]
    cases order i j with
    | none => rfl
    | some o => cases reverse <;> rfl
  · exact hiff.mpr ((horder.self (hiff.mp hij)).trans (by rw [inDirection_eq]))
  · rw [hiff, inDirection_eq] at hij
    rw [horder.eq_left k hij]
  · rw [hiff] at hij hjk ⊢
    cases reverse with
    | false => exact horder.lt_trans hij hjk
    | true =>
      have hki := horder.lt_trans (horder.swap_eq_some hjk) (horder.swap_eq_some hij)
      exact horder.swap_eq_some hki

theorem notAfter_trans (hij : NotAfter order i j) (hjk : NotAfter order j k) :
    NotAfter order i k := by
  rcases hij with rfl | hij | hij
  · exact hjk
  · rcases hjk with rfl | hjk | hjk
    · exact .inr (.inl hij)
    · exact .inr (.inl (horder.lt_trans hij hjk))
    · exact .inr (.inl ((horder.eq_right hjk).symm.trans hij))
  · rcases hjk with rfl | hjk
    · exact .inr (.inr hij)
    · rw [← horder.eq_left k hij] at hjk
      exact .inr hjk

theorem not_notAfter_of_lt (hij : order i j = some .lt) : ¬ NotAfter order j i := by
  have hji := horder.swap_eq_some hij
  rintro (rfl | hlt | heq)
  · cases hij.symm.trans (horder.self hij)
  · cases hji.symm.trans hlt
  · cases hji.symm.trans heq

end Consistent

/-! ### Orders of all items -/

section Rank

variable {count : Nat} {le : Fin count → Fin count → Prop} {i j : Fin count}

/-- The number of items that come before an item or with it. -/
noncomputable def rank (le : Fin count → Fin count → Prop) (i : Fin count) : Nat :=
  {k | le k i}.ncard

/-- The order of items by their ranks. -/
noncomputable def byRank (le : Fin count → Fin count → Prop) : Fin count → Fin count → Ordering :=
  compareOn (rank le)

instance (le : Fin count → Fin count → Prop) : Std.TransCmp (byRank le) :=
  inferInstanceAs (Std.TransCmp (compareOn _))

/-- An order that may leave items side by side, and that an order of some pairs is a part of. -/
structure Extends (le : Fin count → Fin count → Prop)
    (order : Fin count → Fin count → Option Ordering) : Prop where
  refl : ∀ i, le i i
  trans : ∀ {i j k}, le i j → le j k → le i k
  lt : ∀ {i j}, order i j = some .lt → le i j ∧ ¬ le j i
  eq : ∀ {i j}, order i j = some .eq → le i j

namespace Extends

variable {order : Fin count → Fin count → Option Ordering} (hle : Extends le order)

include hle

theorem rank_le (hij : le i j) : rank le i ≤ rank le j :=
  Set.ncard_le_ncard (fun _ hk => hle.trans hk hij) (Set.toFinite _)

theorem rank_lt (hij : le i j) (hji : ¬ le j i) : rank le i < rank le j := by
  have hssub : {k | le k i} ⊂ {k | le k j} :=
    ⟨fun _ hk => hle.trans hk hij, fun hsub => hji (hsub (hle.refl j))⟩
  exact Set.ncard_lt_ncard hssub (Set.toFinite _)

/-- What an order of some pairs says, the order by ranks says too. -/
theorem byRank_eq (horder : Consistent order) {o : Ordering} (hij : order i j = some o) :
    byRank le i j = o := by
  have hji := horder.swap_eq_some hij
  rw [byRank, compareOn]
  cases o with
  | lt =>
    obtain ⟨hlt, hnot⟩ := hle.lt hij
    exact compare_lt_iff_lt.mpr (hle.rank_lt hlt hnot)
  | eq =>
    have hrank := Nat.le_antisymm (hle.rank_le (hle.eq hij)) (hle.rank_le (hle.eq hji))
    exact compare_eq_iff_eq.mpr hrank
  | gt =>
    obtain ⟨hlt, hnot⟩ := hle.lt hji
    exact compare_gt_iff_gt.mpr (hle.rank_lt hlt hnot)

end Extends

namespace Consistent

variable {order : Fin count → Fin count → Option Ordering} (horder : Consistent order)

include horder

theorem extends_notAfter : Extends (NotAfter order) order where
  refl _ := .inl rfl
  trans := horder.notAfter_trans
  lt hij := ⟨.inr (.inl hij), horder.not_notAfter_of_lt hij⟩
  eq hij := .inr (.inr hij)

theorem not_notAfter_of_none (hne : i ≠ j) (hij : order i j = none) : ¬ NotAfter order j i := by
  rw [NotAfter, horder.swap i j, hij]
  simp [hne.symm]

/-- Two items without an order may be put into one. -/
theorem extends_before (hne : i ≠ j) (hij : order i j = none) :
    Extends (fun k l => NotAfter order k l ∨ NotAfter order k i ∧ NotAfter order j l) order where
  refl _ := .inl (.inl rfl)
  trans := by
    rintro a b c (hab | ⟨hai, hjb⟩) (hbc | ⟨hbi, hjc⟩)
    · exact .inl (horder.notAfter_trans hab hbc)
    · exact .inr ⟨horder.notAfter_trans hab hbi, hjc⟩
    · exact .inr ⟨hai, horder.notAfter_trans hjb hbc⟩
    · exact .inr ⟨hai, hjc⟩
  lt := by
    intro a b hab
    refine ⟨.inl (.inr (.inl hab)), ?_⟩
    rintro (hba | ⟨hbi, hja⟩)
    · exact horder.not_notAfter_of_lt hab hba
    · exact horder.not_notAfter_of_none hne hij
        (horder.notAfter_trans hja (horder.notAfter_trans (.inr (.inl hab)) hbi))
  eq hab := .inl (.inr (.inr hab))

/-- An order of some pairs is part of one of all items, in which two items that it says nothing of
come one way round. -/
theorem exists_answers (hne : i ≠ j) (hij : order i j = none) :
    ∃ answer : Fin count → Fin count → Ordering, Std.TransCmp answer ∧
      (∀ k l o, order k l = some o → answer k l = o) ∧ answer i j = .lt := by
  have hle := horder.extends_before hne hij
  have hnot := horder.not_notAfter_of_none hne hij
  refine ⟨byRank _, inferInstance, fun k l o => hle.byRank_eq horder, compare_lt_iff_lt.mpr ?_⟩
  refine hle.rank_lt (.inr ⟨.inl rfl, .inl rfl⟩) ?_
  rintro (h | ⟨h, -⟩) <;> exact hnot h

/-- A row is not in order for all orders of all items that an order of some pairs is part of, unless
that is an order of all of them itself. -/
theorem isSome_of_sorted {sorted : List (Fin count)} (hperm : sorted.Perm (List.finRange count))
    (hsorted : ∀ answer, Std.TransCmp answer → (∀ k l o, order k l = some o → answer k l = o) →
      sorted.Pairwise (ComesBefore answer)) (hne : i ≠ j) : (order i j).isSome = true := by
  by_contra hnone
  have hij : order i j = none := by simpa using hnone
  have hji : order j i = none := by rw [horder.swap i j, hij]; rfl
  obtain ⟨answer, htrans, hanswer, hforth⟩ := horder.exists_answers hne hij
  obtain ⟨answer', htrans', hanswer', hback⟩ := horder.exists_answers hne.symm hji
  have hnot {f : Fin count → Fin count → Ordering} [Std.TransCmp f] {k l : Fin count}
      (hkl : f k l = .lt) (hlk : ComesBefore f l k) : False :=
    not_comesBefore_self (hlk.trans (.inl hkl))
  obtain ⟨a, ha, rfl⟩ := List.getElem_of_mem (hperm.mem_iff.mpr (List.mem_finRange i))
  obtain ⟨b, hb, rfl⟩ := List.getElem_of_mem (hperm.mem_iff.mpr (List.mem_finRange j))
  rcases Nat.lt_trichotomy a b with hlt | rfl | hlt
  · exact hnot hback (List.pairwise_iff_getElem.mp (hsorted answer' htrans' hanswer') a b ha hb hlt)
  · exact hne rfl
  · exact hnot hforth (List.pairwise_iff_getElem.mp (hsorted answer htrans hanswer) b a hb ha hlt)

end Consistent

end Rank

/-! ### Runs of plans -/

section Runs

variable {count : Nat} {order : Value → Value → Option (Option Ordering)} {reverse : Bool}
  {item : Fin count → Value} {sorted : List (Fin count)} {plan : SortPlan count}
  {noted noted' : Option Unordered}

theorem told_eq_some {i j : Fin count} {o : Ordering} :
    told order reverse item i j = some o ↔
      order (item i) (item j) = some (some (inDirection reverse o)) := by
  rw [told, Option.map_eq_some_iff]
  constructor
  · rintro ⟨o', ho', rfl⟩
    rwa [inDirection_inDirection, ← Option.join_eq_some_iff]
  · exact fun ho => ⟨_, Option.join_eq_some_iff.mpr ho, inDirection_inDirection reverse o⟩

/-- Follow a comparison of two items that have an order. -/
theorem SortPlan.run_of_told {i j : Fin count} {next : Ordering → SortPlan count} {o : Ordering}
    (hij : told order reverse item i j = some o) :
    (SortPlan.compare i j next).run order reverse item noted =
      (next o).run order reverse item noted := by
  rw [SortPlan.run, told_eq_some.mp hij]
  dsimp only
  rw [inDirection_inDirection]

/-- Once two items without an order are noted, they stay so. -/
theorem SortPlan.noted_of_run {e : Unordered}
    (hrun : plan.run order reverse item (some e) = .ok (sorted, noted')) : noted' = some e := by
  induction plan with
  | done positions =>
    cases hrun
    rfl
  | compare i j next ih =>
    rw [SortPlan.run] at hrun
    split at hrun
    · exact ih _ hrun
    · exact ih _ hrun
    · cases hrun
  | giveUp => cases hrun

/-- A sort that notes nothing would have come to the same place with all answers that agree with
those it had. -/
theorem SortPlan.outcome_of_unnoted {answer : Fin count → Fin count → Ordering}
    (hanswer : ∀ i j o, told order reverse item i j = some o → answer i j = o)
    (hrun : plan.run order reverse item none = .ok (sorted, none)) :
    plan.outcome answer = some sorted := by
  induction plan with
  | done positions =>
    cases hrun
    rfl
  | compare i j next ih =>
    cases hij : told order reverse item i j with
    | some o =>
      rw [SortPlan.outcome, hanswer i j o hij]
      exact ih o ((SortPlan.run_of_told hij).symm.trans hrun)
    | none =>
      rw [told, Option.map_eq_none_iff] at hij
      rw [SortPlan.run] at hrun
      split at hrun
      · next o ho =>
        rw [ho] at hij
        cases hij
      · cases SortPlan.noted_of_run hrun
      · cases hrun
  | giveUp => cases hrun

/-- A sort comes to where its plan leads and notes nothing, where all pairs have an order. -/
theorem SortPlan.run_of_outcome {answer : Fin count → Fin count → Ordering}
    (htold : ∀ i j, told order reverse item i j = some (answer i j))
    (houtcome : plan.outcome answer = some sorted) :
    plan.run order reverse item none = .ok (sorted, none) := by
  induction plan with
  | done positions =>
    cases houtcome
    rfl
  | compare i j next ih =>
    rw [SortPlan.run_of_told (htold i j)]
    exact ih _ houtcome
  | giveUp => cases houtcome

/-- A sort comes to an end wherever its plan does, if all comparisons have one. -/
theorem SortPlan.exists_run (hasked : ∀ i j, (order (item i) (item j)).isSome)
    (houtcome : plan.outcome (answerOf order reverse item) = some sorted) :
    ∃ noted', plan.run order reverse item noted = .ok (sorted, noted') := by
  induction plan generalizing noted with
  | done positions =>
    cases houtcome
    exact ⟨noted, rfl⟩
  | compare i j next ih =>
    obtain ⟨known, hknown⟩ := Option.isSome_iff_exists.mp (hasked i j)
    rw [SortPlan.outcome, answerOf, told, hknown] at houtcome
    rw [SortPlan.run, hknown]
    cases known with
    | none => exact ih _ houtcome
    | some o => exact ih _ houtcome
  | giveUp => cases houtcome

/-- What stops a sort is a crash. -/
theorem SortPlan.eq_crash_of_run {failure : Failure}
    (hrun : plan.run order reverse item noted = .error failure) : failure = .crash := by
  induction plan generalizing noted with
  | done positions => cases hrun
  | compare i j next ih =>
    rw [SortPlan.run] at hrun
    split at hrun
    · exact ih _ hrun
    · exact ih _ hrun
    · cases hrun
      rfl
  | giveUp =>
    cases hrun
    rfl

/-- Two items are noted with their types, as they have no order. -/
theorem SortPlan.exists_unordered {e : Unordered}
    (hrun : plan.run order reverse item none = .ok (sorted, some e)) :
    ∃ i j, order (item i) (item j) = some none ∧ e = ((item i).typeName, (item j).typeName) := by
  induction plan with
  | done positions => cases hrun
  | compare i j next ih =>
    rw [SortPlan.run] at hrun
    split at hrun
    · exact ih _ hrun
    · next ho => exact ⟨i, j, ho, Option.some.inj (SortPlan.noted_of_run hrun)⟩
    · cases hrun
  | giveUp => cases hrun

/-- The plan by which items are sorted sorts them, where the answers are those of an order. -/
theorem Sorter.planFor_sorts (sorter : Sorter) (answer : Fin count → Fin count → Ordering)
    [Std.TransCmp answer] : ∃ sorted, (sorter.planFor count).outcome answer = some sorted ∧
      sorted.Pairwise (ComesBefore answer) := by
  unfold Sorter.planFor
  split
  · exact Sorter.insertion.sorts answer
  · exact sorter.sorts answer

/-- A single item is sorted without looking at it. -/
theorem Sorter.planFor_of_le_one (sorter : Sorter) (hcount : count ≤ 1) :
    sorter.planFor count = .done (List.finRange count) := by
  match count, hcount with
  | 0, _ => rfl
  | 1, _ => rfl

end Runs

/-! ### Sorting items -/

/-- An item of a list comes before another one: it is less than the other one, or greater where the
direction is reversed, or they are equal and it stands before the other one. -/
def Precedes (order : Value → Value → Option (Option Ordering)) (reverse : Bool) (items : Array Value)
    (i j : Fin items.size) : Prop :=
  order (itemAt items i) (itemAt items j) = some (some (inDirection reverse .lt)) ∨
    order (itemAt items i) (itemAt items j) = some (some .eq) ∧ i < j

/-- The items of a list in order. Those that are equal stand as they do in the list. -/
def IsStableSort (order : Value → Value → Option (Option Ordering)) (reverse : Bool)
    (items sorted : Array Value) : Prop :=
  ∃ places : List (Fin items.size), places.Perm (List.finRange items.size) ∧
    sorted.toList = places.map (itemAt items) ∧ places.Pairwise (Precedes order reverse items)

theorem IsStableSort.perm {order : Value → Value → Option (Option Ordering)} {reverse : Bool}
    {items sorted : Array Value} (hsorted : IsStableSort order reverse items sorted) :
    sorted.toList.Perm items.toList := by
  obtain ⟨places, hperm, hmap, -⟩ := hsorted
  rw [hmap, ← map_finRange_itemAt items]
  exact hperm.map _

/-- Two items at different positions have no order. -/
def HasUnordered (order : Value → Value → Option (Option Ordering)) (items : Array Value) : Prop :=
  ∃ i j, i ≠ j ∧ order (itemAt items i) (itemAt items j) = some none

instance (order : Value → Value → Option (Option Ordering)) (items : Array Value) :
    Decidable (HasUnordered order items) :=
  inferInstanceAs (Decidable (∃ i j : Fin items.size,
    i ≠ j ∧ order (itemAt items i) (itemAt items j) = some none))

/-- How sorting fails: two items that have no order are named with their types, or a sort of more
items than are inserted one by one gives up. -/
def SortFailure (order : Value → Value → Option (Option Ordering)) (items : Array Value)
    (failure : Failure) : Prop :=
  (∃ i j, order (itemAt items i) (itemAt items j) = some none ∧
    failure = .error (.type (.notOrdered .less (itemAt items i).typeName (itemAt items j).typeName))) ∨
  (insertionLimit < items.size ∧ failure = .crash)

section Items

variable {order : Value → Value → Option (Option Ordering)} {reverse : Bool} {items : Array Value}
  {answer : Fin items.size → Fin items.size → Ordering} {i j : Fin items.size}

/-- What a sort of a list learns about two positions. -/
abbrev toldAt (order : Value → Value → Option (Option Ordering)) (reverse : Bool)
    (items : Array Value) (i j : Fin items.size) : Option Ordering :=
  told order reverse (itemAt items) i j

theorem precedes_iff_comesBefore (hij : toldAt order reverse items i j = some (answer i j)) :
    Precedes order reverse items i j ↔ ComesBefore answer i j := by
  have hiff (o : Ordering) :
      order (itemAt items i) (itemAt items j) = some (some (inDirection reverse o)) ↔
      answer i j = o := by
    refine told_eq_some.symm.trans ?_
    change toldAt order reverse items i j = some o ↔ _
    rw [hij, Option.some.injEq]
  have heq := hiff .eq
  rw [inDirection_eq] at heq
  rw [Precedes, ComesBefore, hiff, heq]

/-- Where all pairs of items have an order, what a sort learns about them is an order of all
items. -/
theorem exists_answer (hconsistent : Consistent (toldAt order reverse items))
    (hasked : ∀ i j, (order (itemAt items i) (itemAt items j)).isSome)
    (hordered : ¬ HasUnordered order items) :
    ∃ answer : Fin items.size → Fin items.size → Ordering, Std.TransCmp answer ∧
      ∀ i j, i ≠ j → toldAt order reverse items i j = some (answer i j) := by
  refine ⟨byRank (NotAfter (toldAt order reverse items)), inferInstance, fun i j hne => ?_⟩
  obtain ⟨known, hknown⟩ := Option.isSome_iff_exists.mp (hasked i j)
  cases known with
  | none => exact absurd ⟨i, j, hne, hknown⟩ hordered
  | some o =>
    have htold : toldAt order reverse items i j = some (inDirection reverse o) := by
      simp only [toldAt, told, hknown, Option.join_some, Option.map_some]
    rw [htold, hconsistent.extends_notAfter.byRank_eq hconsistent htold]

/-- Items of which all pairs have an order are put in order. -/
theorem sortItems_of_ordered (sorter : Sorter) [Std.TransCmp answer]
    (hconsistent : Consistent (toldAt order reverse items))
    (hanswer : ∀ i j, i ≠ j → toldAt order reverse items i j = some (answer i j)) :
    ∃ result, sortItems sorter order reverse items = .ok result ∧
      IsStableSort order reverse items result := by
  obtain ⟨places, houtcome, hsorted⟩ := sorter.planFor_sorts answer
  have hperm := Sorter.perm_planFor houtcome
  have hrun : (sorter.planFor items.size).run order reverse (itemAt items) none =
      .ok (places, none) := by
    by_cases hcount : items.size ≤ 1
    · rw [sorter.planFor_of_le_one hcount] at houtcome ⊢
      cases houtcome
      rfl
    · refine SortPlan.run_of_outcome (fun i j => ?_) houtcome
      by_cases hij : i = j
      · -- An item that has an order to another one is equal to itself.
        subst hij
        have hcount' : 1 < items.size := by omega
        obtain ⟨k, hk⟩ : ∃ k, i ≠ k := by
          by_cases hi : i.val = 0
          · exact ⟨⟨1, hcount'⟩, fun h => by simp [h] at hi⟩
          · exact ⟨⟨0, by omega⟩, fun h => hi (congrArg Fin.val h)⟩
        have hself : answer i i = .eq := Std.ReflCmp.compare_self
        exact hself ▸ hconsistent.self (hanswer i k hk)
      · exact hanswer i j hij
  refine ⟨(places.map (itemAt items)).toArray, by rw [sortItems, hrun]; rfl, places, hperm, rfl, ?_⟩
  have hnodup : places.Nodup := hperm.nodup_iff.mpr (List.nodup_finRange _)
  exact (hsorted.and hnodup).imp fun ⟨hbefore, hne⟩ =>
    (precedes_iff_comesBefore (hanswer _ _ hne)).mpr hbefore

/-- Items of which two have no order cannot be sorted. -/
theorem sortItems_of_unordered (sorter : Sorter)
    (hconsistent : Consistent (toldAt order reverse items))
    (hasked : ∀ i j, (order (itemAt items i) (itemAt items j)).isSome)
    (hunordered : HasUnordered order items) :
    ∃ failure, sortItems sorter order reverse items = .error failure ∧
      SortFailure order items failure := by
  rcases hrun : (sorter.planFor items.size).run order reverse (itemAt items) none with
    failure | ⟨places, _ | e⟩
  · obtain rfl := SortPlan.eq_crash_of_run hrun
    refine ⟨.crash, by rw [sortItems, hrun]; rfl, .inr ⟨Nat.lt_of_not_le fun hle => ?_, rfl⟩⟩
    -- Insertion comes to an end whatever it is told.
    obtain ⟨sorted, houtcome, -⟩ :=
      exists_insertion (answerOf order reverse (itemAt items)) (List.finRange items.size) []
    rw [Sorter.planFor, if_pos hle] at hrun
    obtain ⟨noted', hrun'⟩ := SortPlan.exists_run hasked houtcome
    cases hrun.symm.trans hrun'
  · obtain ⟨i, j, hne, hij⟩ := hunordered
    have houtcome (answer : Fin items.size → Fin items.size → Ordering)
        (hanswer : ∀ i j o, toldAt order reverse items i j = some o → answer i j = o) :=
      SortPlan.outcome_of_unnoted hanswer hrun
    have hsome := hconsistent.isSome_of_sorted (Sorter.perm_planFor (SortPlan.outcome_of_run hrun))
      (fun answer _ hanswer => ?_) hne
    · rw [toldAt, told, hij] at hsome
      cases hsome
    · obtain ⟨sorted, hsorts, hsorted⟩ := sorter.planFor_sorts answer
      cases hsorts.symm.trans (houtcome answer hanswer)
      exact hsorted
  · obtain ⟨i, j, hij, rfl⟩ := SortPlan.exists_unordered hrun
    exact ⟨_, by rw [sortItems, hrun]; rfl, .inl ⟨i, j, hij, rfl⟩⟩

end Items

/-! ### The least and the greatest item -/

section Extremes

variable {h : Heap} {reverse : Bool} {items : Array Value}

theorem bestOf_cons {wanted o : Ordering} {op : Grammar.Comparison} {best v : Value}
    {rest : List Value}
    (hcompare : compareValues h v best = some (some o)) :
    bestOf h wanted op best (v :: rest) =
      bestOf h wanted op (if o = wanted then v else best) rest := by
  rw [bestOf, hcompare]
  rfl

variable {answer : Fin items.size → Fin items.size → Ordering} [Std.TransCmp answer]
  (hanswer : ∀ i j, i ≠ j → toldAt (compareValues h) reverse items i j = some (answer i j))

include hanswer

/-- The best of an item and some later ones comes before all others. -/
theorem bestOf_eq (op : Grammar.Comparison) {b : Fin items.size} {positions : List (Fin items.size)}
    (hpositions : (b :: positions).Pairwise (· < ·)) :
    ∃ best ∈ b :: positions,
      bestOf h (inDirection reverse .lt) op (itemAt items b) (positions.map (itemAt items)) =
        .ok (itemAt items best) ∧
      ∀ i ∈ b :: positions, i = best ∨ ComesBefore answer best i := by
  induction positions generalizing b with
  | nil => exact ⟨b, List.mem_cons_self, rfl, by simp⟩
  | cons k positions ih =>
    obtain ⟨hb, hrest⟩ := List.pairwise_cons.mp hpositions
    have hbk : b < k := hb k List.mem_cons_self
    have hcompare := told_eq_some.mp (hanswer k b (Fin.ne_of_gt hbk))
    -- What the better one of two items is compared with stays behind the best one.
    have hbehind {i j best : Fin items.size} (hij : ComesBefore answer i j)
        (hbest : i = best ∨ ComesBefore answer best i) : ComesBefore answer best j := by
      rcases hbest with rfl | hbest
      · exact hij
      · exact hbest.trans hij
    rw [List.map_cons, bestOf_cons hcompare]
    by_cases hlt : answer k b = .lt
    · obtain ⟨best, hmem, hbest, hfirst⟩ := ih hrest
      rw [hlt, if_pos rfl]
      refine ⟨best, List.mem_cons_of_mem b hmem, hbest, List.forall_mem_cons.mpr ⟨.inr ?_, hfirst⟩⟩
      exact hbehind (.inl hlt) (hfirst k List.mem_cons_self)
    · obtain ⟨best, hmem, hbest, hfirst⟩ := ih
        (.cons (fun i hi => hb i (List.mem_cons_of_mem k hi)) (List.pairwise_cons.mp hrest).2)
      rw [if_neg fun heq => hlt (inDirection_injective reverse heq)]
      rw [List.forall_mem_cons] at hfirst
      refine ⟨best, ?_, hbest, List.forall_mem_cons.mpr ⟨hfirst.1,
        List.forall_mem_cons.mpr ⟨.inr (hbehind (comesBefore_of_not_lt hbk hlt) hfirst.1),
        hfirst.2⟩⟩⟩
      rcases List.mem_cons.mp hmem with rfl | hmem
      · exact List.mem_cons_self
      · exact List.mem_cons_of_mem b (List.mem_cons_of_mem k hmem)

/-- The best of the items of a list is the first one in order. -/
theorem bestOf_of_isStableSort {op : Grammar.Comparison} {v first : Value} {rest : List Value}
    {sorted : Array Value} (hlist : items.toList = v :: rest)
    (hsorted : IsStableSort (compareValues h) reverse items sorted)
    (hfirst : first ∈ sorted.toList.head?) :
    bestOf h (inDirection reverse .lt) op v rest = .ok first := by
  obtain ⟨places, hperm, hmap, hpairwise⟩ := hsorted
  have hnodup : places.Nodup := hperm.nodup_iff.mpr (List.nodup_finRange _)
  have hrange := pairwise_finRange items.size
  rw [← map_finRange_itemAt] at hlist
  cases hpositions : List.finRange items.size with
  | nil => rw [hpositions] at hlist; cases hlist
  | cons b positions =>
    rw [hpositions] at hlist hrange
    obtain ⟨rfl, rfl⟩ := List.cons.inj hlist
    cases places with
    | nil => rw [hmap] at hfirst; cases hfirst
    | cons least places =>
      rw [hmap] at hfirst
      cases hfirst
      obtain ⟨best, hmem, hbest, hall⟩ := bestOf_eq hanswer op hrange
      rw [hbest]
      rw [hpositions] at hperm
      rcases hall least (hperm.mem_iff.mp List.mem_cons_self) with rfl | hbefore
      · rfl
      · rcases List.mem_cons.mp (hperm.mem_iff.mpr hmem) with rfl | hplaced
        · rfl
        · have hne : least ≠ best := fun heq => (List.nodup_cons.mp hnodup).1 (heq ▸ hplaced)
          have hafter := (precedes_iff_comesBefore (hanswer _ _ hne)).mp
            (List.rel_of_pairwise_cons hpairwise hplaced)
          exact absurd (hbefore.trans hafter) not_comesBefore_self

end Extremes

/-! ### Sorting a list -/

/-- Whether a call asks for the reverse direction. -/
def asksReverse (h : Heap) (keyword : List (String × Value)) : Bool :=
  (((CallArgs.mk [] keyword).keyword? "reverse").map (truthy h)).getD false

variable {h : Heap} {r : ListRef} {keyword : List (String × Value)}

/-- What a sort learns about plain items is an order of their forms. -/
theorem consistent_toldAt {items : Array Value} (reverse : Bool)
    (hplain : ∀ v ∈ items.toList, v.IsPlain h) :
    Consistent (toldAt (compareValues h) reverse items) ∧
      ∀ i j, (compareValues h (itemAt items i) (itemAt items j)).isSome = true := by
  have hitem (i : Fin items.size) : (itemAt items i).IsPlain h :=
    hplain _ (Array.getElem_mem_toList i.isLt)
  have hcompare (i j : Fin items.size) := compareValues_eq (hitem i) (hitem j)
  refine ⟨?_, fun i j => by rw [hcompare]; rfl⟩
  have htold : toldAt (compareValues h) reverse items =
      fun i j => (((itemAt items i).form h).order ((itemAt items j).form h)).map
        (inDirection reverse) := by
    funext i j
    rw [toldAt, told, hcompare, Option.join_some]
  rw [htold]
  exact (Form.consistent_order.comap fun i => (itemAt items i).form h).directed reverse

theorem onlyKeywords_reverse (hkeyword : ∀ e ∈ keyword, e.1 = "reverse") (positional : List Value)
    (function : String) : (CallArgs.mk positional keyword).onlyKeywords function ["reverse"] =
      .ok () := by
  have hfind : (keyword.find? fun e => !List.contains ["reverse"] e.1) = none :=
    List.find?_eq_none.mpr fun e he => by simp [hkeyword e he]
  rw [CallArgs.onlyKeywords, hfind]

theorem callPureBuiltin_sorted (sorter : Sorter) (hkeyword : ∀ e ∈ keyword, e.1 = "reverse") :
    callPureBuiltin sorter .sorted ⟨[.list r], keyword⟩ h =
      match sortValues sorter h (asksReverse h keyword) (h.items r) with
      | .ok sorted => (.ok (h.newList sorted).1, (h.newList sorted).2)
      | .error failure => (.error failure, h) := by
  have honly := onlyKeywords_reverse hkeyword [.list r] Builtin.sorted.name
  rw [callPureBuiltin, HeapM.check_bind, Builtin.keywords, honly]
  refine (HeapM.lift_bind (sortValues sorter h (asksReverse h keyword) (h.items r))
    (fun sorted => HeapM.perform (.newList sorted)) h).trans ?_
  cases sortValues sorter h (asksReverse h keyword) (h.items r) <;> rfl

theorem callListMethod_sort (sorter : Sorter) (hkeyword : ∀ e ∈ keyword, e.1 = "reverse") :
    callListMethod sorter r .sort ⟨[], keyword⟩ h =
      match sortValues sorter h (asksReverse h keyword) (h.items r) with
      | .ok sorted => (.ok .none, h.updateList r fun _ => sorted)
      | .error failure => (.error failure, h) := by
  have honly := onlyKeywords_reverse hkeyword [] ("list." ++ ListMethod.sort.name)
  have hreverse : truthy h (((CallArgs.mk [] keyword).keyword? "reverse").getD .none) =
      asksReverse h keyword := by
    rw [asksReverse]
    cases (CallArgs.mk [] keyword).keyword? "reverse" <;> rfl
  rw [callListMethod, HeapM.check_bind, if_pos rfl, honly, ← hreverse]
  refine (HeapM.lift_bind (sortValues sorter h _ (h.items r))
    (fun sorted => do HeapM.updateList r fun _ => sorted; return Value.none) h).trans ?_
  cases sortValues sorter h _ (h.items r) <;> rfl

theorem extreme_eq_bestOf {v : Value} {rest : List Value} (hlist : (h.items r).toList = v :: rest)
    (name : String) (wanted : Ordering) (op : Grammar.Comparison) :
    extreme name wanted op ⟨[.list r], []⟩ h = bestOf h wanted op v rest := by
  have hitems : Array.toList <$> (liftM (itemsOf h (.list r)) : Except Failure (Array Value)) =
      .ok (v :: rest) := congrArg Except.ok hlist
  rw [extreme]
  dsimp only
  rw [hitems]
  rfl

/-- The least item of a list, or the greatest one where the direction is reversed. -/
theorem callBuiltin_extreme (env : Env) (host : Host) {reverse : Bool} {v : Value}
    {rest : List Value}
    (hlist : (h.items r).toList = v :: rest) :
    callBuiltin env (if reverse then .max else .min) ⟨[.list r], []⟩ ⟨h, host⟩ =
      (bestOf h (inDirection reverse .lt) (if reverse then .greater else .less) v rest,
        ⟨h, host⟩) := by
  have hlift (b : Builtin) (wanted : Ordering) (op : Grammar.Comparison) :
      (liftM (extreme b.name wanted op ⟨[.list r], []⟩ h) : HeapOp) h =
        (bestOf h wanted op v rest, h) := by
    rw [extreme_eq_bestOf hlist]
    cases bestOf h wanted op v rest <;> rfl
  have hcall : callPureBuiltin env.sorter (if reverse then .max else .min) ⟨[.list r], []⟩ h =
      (bestOf h (inDirection reverse .lt) (if reverse then .greater else .less) v rest, h) := by
    cases reverse with
    | false => exact hlift .min .lt .less
    | true => exact hlift .max .gt .greater
  have hpure : callBuiltin env (if reverse then .max else .min) ⟨[.list r], []⟩ =
      Work.onHeap (callPureBuiltin env.sorter (if reverse then .max else .min)
        ⟨[.list r], []⟩) := by
    cases reverse <;> rfl
  rw [hpure]
  exact Work.onHeap_of_eq hcall

/-- A heap with a list of three lists, which hold a truth value, a two and a one. -/
def nestedHeap : Heap where
  lists := #[#[.list ⟨1⟩, .list ⟨2⟩, .list ⟨3⟩], #[.bool true], #[.int 2], #[.int 1]]
  dicts := #[]
  functions := #[]

end NoteShell.Script
