import NoteShell.Proofs.Text.Lengths
import NoteShell.Proofs.Values.Sound
import NoteShell.Script.Operator

/-!
# Results of operators

What is known of the results of arithmetic, of positions in sequences and of checked lengths,
whatever the heap is.

## Main results

* `givesNumber_numberBinary`, `givesNumber_signed` : operators on numbers give numbers.
* `ensures_checkLength`, `ensures_repeatCount` : lengths that have been checked.
-/

namespace NoteShell.Script

open NoteShell.Grammar NoteShell.Text

variable {a b : Value}

theorem ensures_checkLength (n : Nat) : Ensures (fun _ => n ≤ maxSequence) (checkLength n) :=
  ensures_ite (fun _ => ensures_error) fun hn => ensures_ok (Nat.not_lt.mp hn)

/-! ### Numbers -/

/-- A result that is a number, if there is one. -/
abbrev GivesNumber (x : Except EvalError Value) : Prop := Ensures (fun v => v.isNumber = true) x

theorem givesNumber_int (x : Except EvalError Int64) : GivesNumber (.int <$> x) :=
  ensures_true.map fun _ _ => rfl

theorem givesNumber_intBinary (op : BinaryOp) (x y : Int64) : GivesNumber (intBinary op x y) := by
  cases op with
  | add | sub | mul => exact givesNumber_int _
  | div | mod => exact ensures_ite (fun _ => ensures_error) fun _ => ensures_ok rfl
  | floorDiv => exact ensures_ite (fun _ => ensures_error) fun _ => givesNumber_int _
  | pow =>
    refine ensures_ite (fun _ => ?_) fun _ => givesNumber_int _
    exact ensures_ite (fun _ => ensures_error) fun _ => ensures_ok rfl

theorem givesNumber_floatBinary (op : BinaryOp) (x y : Float) :
    GivesNumber (floatBinary op x y) := by
  cases op with
  | add | sub | mul => exact ensures_ok rfl
  | div | floorDiv => exact ensures_ite (fun _ => ensures_error) fun _ => ensures_ok rfl
  | mod =>
    refine ensures_ite (fun _ => ensures_error) fun _ => ?_
    exact ensures_ite (fun _ => ensures_ok rfl) fun _ => ensures_ok rfl
  | pow =>
    refine ensures_ite (fun _ => ensures_error) fun _ => ?_
    exact ensures_ite (fun _ => ensures_error) fun _ => ensures_ok rfl

theorem givesNumber_numberBinary {op : BinaryOp} {result : Except EvalError Value}
    (hresult : numberBinary? op a b = some result) : GivesNumber result := by
  rw [numberBinary?] at hresult
  split at hresult
  · cases hresult
    exact givesNumber_intBinary op _ _
  · split at hresult
    · cases hresult
      exact givesNumber_floatBinary op _ _
    · cases hresult

theorem givesNumber_signed (sign : Sign) (v : Value) : GivesNumber (signed sign v) := by
  unfold signed
  split
  · exact ensures_ok rfl
  · split
    · exact ensures_error
    · exact ensures_ite (fun _ => givesNumber_int _) fun _ => ensures_ok rfl

/-! ### Sequences -/

theorem ensures_orIndexError {α : Type} {A : α → Prop} {e : IndexError} {a? : Option α}
    (ha : ∀ a, a? = some a → A a) : Ensures A (orIndexError e a?) := by
  cases a? with
  | none => exact ensures_error
  | some a => exact ensures_ok (ha a rfl)

theorem length_repeatText (s : String) (count : Nat) (acc : String) :
    (repeatText s count acc).length = acc.length + s.length * count := by
  induction count generalizing acc with
  | zero => rfl
  | succ count ih =>
    rw [repeatText, ih, String.length_append, Nat.mul_succ]
    omega

theorem ensures_repeatCount (n : Int64) (length : Nat) :
    Ensures (fun count => length * count ≤ maxSequence) (repeatCount n length) :=
  (ensures_checkLength _).bind fun _ hle => ensures_ok hle

theorem length_slice_le (s : String) (first last : Nat) :
    (String.ofList ((s.toList.drop first).take (last - first))).length ≤ s.length := by
  rw [String.length_ofList, ← String.length_toList]
  exact Nat.le_trans (List.length_take_le' _ _) (List.drop_suffix _ _).length_le

theorem mem_of_mem_removeAt {items : Array Value} {n : Nat} {v : Value}
    (hv : v ∈ removeAt items n) : v ∈ items := by
  rw [removeAt, Array.eraseIdxIfInBounds] at hv
  split at hv
  · exact Array.mem_of_mem_eraseIdx hv
  · exact hv

theorem size_removeAt_le (items : Array Value) (n : Nat) :
    (removeAt items n).size ≤ items.size := by
  rw [removeAt, Array.eraseIdxIfInBounds]
  split
  · rw [Array.size_eraseIdx]
    exact Nat.sub_le _ _
  · exact Nat.le_refl _

end NoteShell.Script
