import NoteShell.Proofs.Text.Occurrences
import NoteShell.Proofs.Values.Operators
import NoteShell.Script.Builtins
import NoteShell.Script.ListMethods
import NoteShell.Script.StrMethods

/-!
# Results of methods

What is known of the results of methods whatever the heap is: the lengths of texts that are joined
and in which parts are replaced are checked, sorting keeps the items, and what is inserted into a
list joins the items that were there.

## Main results

* `ensures_joinTexts`, `ensures_replaceText` : the lengths of texts.
* `SortPlan.outcome_of_run` : a sort of items follows its plan.
* `perm_sortItems`, `ensures_sortValues` : sorted items.
-/

namespace NoteShell.Script

open NoteShell.Text

variable {v : Value}

/-! ### Methods of texts -/

theorem length_flatten_le_foldl (pieces : List String) (n : Nat) :
    n + (pieces.map String.toList).flatten.length ≤
      pieces.foldl (fun n p => n + p.utf8ByteSize) n := by
  induction pieces generalizing n with
  | nil => exact Nat.le_refl n
  | cons p pieces ih =>
    have hle := ih (n + p.utf8ByteSize)
    have hbytes := length_le_utf8ByteSize p
    rw [List.map_cons, List.flatten_cons, List.length_append, String.length_toList, List.foldl_cons]
    omega

/-- The length of a joined text is checked. -/
theorem ensures_joinTexts (sep : String) (items : Array Value) :
    Ensures (fun s => s.length ≤ maxSequence) (joinTexts sep items) := by
  refine .after fun pieces => (ensures_checkLength _).bind fun _ hle => ensures_ok ?_
  have hpieces := length_flatten_le_foldl pieces 0
  have hsep := Nat.mul_le_mul_right (pieces.length - 1) (length_le_utf8ByteSize sep)
  rw [length_join]
  omega

/-- The length of a text is checked before a part is replaced. -/
theorem ensures_replaceText (s old new : String) :
    Ensures (fun t => t.length ≤ maxSequence) (replaceText s old new) := by
  refine (ensures_checkLength _).bind fun _ hle => ensures_ok ?_
  have hreplace := length_replace_le old new s
  have hs := length_le_utf8ByteSize s
  have hnew := Nat.mul_le_mul_left (countOccurrences old s) (length_le_utf8ByteSize new)
  omega

/-! ### Sorting -/

section Sorting

variable {count : Nat} {order : Value → Value → Option (Option Ordering)} {reverse : Bool}
  {item : Fin count → Value} {noted noted' : Option Unordered} {sorted : List (Fin count)}

/-- What a sort learns about two items that it compares, where they have an order. -/
def told (order : Value → Value → Option (Option Ordering)) (reverse : Bool)
    (item : Fin count → Value) (i j : Fin count) : Option Ordering :=
  (order (item i) (item j)).join.map (inDirection reverse)

/-- What a sort goes on with. Items without an order count as equal. -/
def answerOf (order : Value → Value → Option (Option Ordering)) (reverse : Bool)
    (item : Fin count → Value) (i j : Fin count) : Ordering :=
  (told order reverse item i j).getD .eq

/-- A sort of items comes to where its plan leads. -/
theorem SortPlan.outcome_of_run {plan : SortPlan count}
    (hrun : plan.run order reverse item noted = .ok (sorted, noted')) :
    plan.outcome (answerOf order reverse item) = some sorted := by
  induction plan generalizing noted with
  | done positions =>
    cases hrun
    rfl
  | compare i j next ih =>
    rw [SortPlan.run] at hrun
    rw [SortPlan.outcome, answerOf, told]
    split at hrun
    · next o ho =>
      rw [ho]
      exact ih _ hrun
    · next ho =>
      rw [ho]
      exact ih _ hrun
    · cases hrun
  | giveUp => cases hrun

/-- Whatever the sorter, a plan that leads somewhere keeps all positions. -/
theorem Sorter.perm_planFor {sorter : Sorter} {answer : Fin count → Fin count → Ordering}
    (houtcome : (sorter.planFor count).outcome answer = some sorted) :
    sorted.Perm (List.finRange count) := by
  unfold planFor at houtcome
  split at houtcome
  · exact Sorter.insertion.perm houtcome
  · exact sorter.perm houtcome

theorem map_finRange_itemAt (items : Array Value) :
    (List.finRange items.size).map (itemAt items) = items.toList :=
  List.ext_getElem (by simp) (by simp [itemAt])

/-- Items that have been sorted are those in the order to which the plan leads. -/
theorem sortItems_eq_ok {sorter : Sorter} {items result : Array Value}
    (hresult : sortItems sorter order reverse items = .ok result) :
    ∃ sorted, (sorter.planFor items.size).run order reverse (itemAt items) none =
      .ok (sorted, none) ∧ result = (sorted.map (itemAt items)).toArray := by
  unfold sortItems at hresult
  rcases hrun : (sorter.planFor items.size).run order reverse (itemAt items) none with
    failure | ⟨sorted, _ | ⟨left, right⟩⟩ <;> rw [hrun] at hresult <;> cases hresult
  exact ⟨sorted, rfl, rfl⟩

/-- Sorting keeps the items and their number. -/
theorem perm_sortItems {sorter : Sorter} {items result : Array Value}
    (hresult : sortItems sorter order reverse items = .ok result) :
    result.toList.Perm items.toList := by
  obtain ⟨sorted, hrun, rfl⟩ := sortItems_eq_ok hresult
  have hperm := Sorter.perm_planFor (SortPlan.outcome_of_run hrun)
  rw [← map_finRange_itemAt items]
  exact hperm.map _

theorem ensures_sortValues (sorter : Sorter) (h : Heap) (reverse : Bool) (items : Array Value) :
    Ensures (fun sorted : Array Value => sorted.toList.Perm items.toList)
      (sortValues sorter h reverse items) :=
  fun _ => perm_sortItems

end Sorting

/-! ### Methods of lists -/

theorem size_insertAt (items : Array Value) (n : Nat) (v : Value) :
    (insertAt items n v).size = items.size + 1 := by
  rw [insertAt, Array.size_append, Array.size_push, Array.size_extract, Array.size_extract]
  omega

theorem mem_of_mem_insertAt {items : Array Value} {n : Nat} {w : Value}
    (hw : w ∈ insertAt items n v) : w = v ∨ w ∈ items := by
  have hextract {i j : Nat} (hw : w ∈ items.extract i j) : w ∈ items := by
    obtain ⟨k, hk, rfl⟩ := Array.mem_extract_iff_getElem.mp hw
    exact Array.getElem_mem _
  rcases Array.mem_append.mp hw with hw | hw
  · rcases Array.mem_push.mp hw with hw | rfl
    · exact .inr (hextract hw)
    · exact .inl rfl
  · exact .inr (hextract hw)

end NoteShell.Script
