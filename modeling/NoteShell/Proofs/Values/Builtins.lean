import NoteShell.Proofs.Values.Methods
import NoteShell.Script.Builtins

/-!
# Results of builtin functions

Conversions and computations on numbers give numbers, and the best one of some values is one of
them.

## Main results

* `givesNumber_toInt`, `givesNumber_toFloat`, `givesNumber_roundNumber` : conversions.
* `ensures_extreme` : the best argument, or the best item of the only argument.
* `ensures_addNumbers` : sums of numbers.
-/

namespace NoteShell.Script

open NoteShell.Grammar

variable {h : Heap} {v : Value} {args : CallArgs}

/-! ### Conversions -/

theorem givesNumber_intOfFloat (x : Float) : GivesNumber (intOfFloat x) := by
  refine ensures_ite (fun _ => ensures_error) fun _ => ?_
  refine ensures_ite (fun _ => ensures_error) fun _ => ?_
  exact ensures_ite (fun _ => ensures_error) fun _ => ensures_ok rfl

theorem givesNumber_toInt (v : Value) : GivesNumber (toInt v) := by
  unfold toInt
  split
  · exact givesNumber_intOfFloat _
  · exact givesNumber_int _
  · split
    · exact ensures_ok rfl
    · exact ensures_error

theorem givesNumber_toFloat (v : Value) : GivesNumber (toFloat v) := by
  unfold toFloat
  split
  · exact ensures_true.map fun _ _ => rfl
  · split
    · exact ensures_ok rfl
    · exact ensures_error

theorem givesNumber_intConversion (args : CallArgs) : GivesNumber (intConversion args) := by
  unfold intConversion
  split
  · exact ensures_ok rfl
  · exact givesNumber_toInt _
  · exact .after fun text => .after fun base => givesNumber_int _

theorem givesNumber_magnitude (v : Value) : GivesNumber (magnitude v) := by
  unfold magnitude
  split
  · exact ensures_ok rfl
  · split
    · exact ensures_error
    · exact givesNumber_int _

theorem givesNumber_roundNumber (v : Value) (places : Option Int64) :
    GivesNumber (roundNumber v places) := by
  unfold roundNumber
  split
  · exact givesNumber_intOfFloat _
  · exact ensures_ok rfl
  · split
    · exact ensures_error
    · split
      · exact ensures_ite (fun _ => ensures_ok rfl) fun _ => ensures_ok rfl
      · exact ensures_ok rfl

theorem ensures_rangeArguments (args : List Value) :
    Ensures (fun v => ∃ r, v = .range r) (rangeArguments args) := by
  have hrange (start stop step : Int64) :
      Ensures (fun v => ∃ r, v = .range r) (rangeOf start stop step) :=
    ensures_ite (fun _ => ensures_error) fun _ => ensures_ok ⟨_, rfl⟩
  refine .after fun bounds => ?_
  split <;> exact hrange _ _ _

/-! ### Computations on sequences -/

/-- The best one of some values is one of them. -/
theorem ensures_bestOf {P : Value → Prop} (h : Heap) (wanted : Ordering) (op : Comparison)
    {best : Value} {vs : List Value} (hbest : P best) (hvs : ∀ v ∈ vs, P v) :
    Ensures P (bestOf h wanted op best vs) := by
  induction vs generalizing best with
  | nil => exact ensures_ok hbest
  | cons v vs ih =>
    rw [List.forall_mem_cons] at hvs
    rw [bestOf]
    refine .after fun o => ?_
    cases o with
    | none => exact ensures_error
    | some o =>
      refine ih ?_ hvs.2
      split_ifs
      · exact hvs.1
      · exact hbest

/-- The best argument, or the best item of the only argument. -/
theorem ensures_extreme {P : Value → Prop} (hargs : ∀ v ∈ args.positional, P v)
    (hitems : ∀ v, P v → Ensures (fun items => ∀ x ∈ items, P x) (itemsOf h v)) (name : String)
    (wanted : Ordering) (op : Comparison) : Ensures P (extreme name wanted op args h) := by
  have hbest {v : Value} {rest : List Value} (hvs : ∀ w ∈ v :: rest, P w) :
      Ensures P (bestOf h wanted op v rest) := by
    rw [List.forall_mem_cons] at hvs
    exact ensures_bestOf h wanted op hvs.1 hvs.2
  refine .after fun _ => ?_
  split
  · next v heq =>
    have hv : P v := hargs v (heq ▸ List.mem_singleton_self v)
    refine Ensures.bind (A := fun vs => ∀ v ∈ vs, P v)
      ((hitems v hv).lift.map fun items hitems v hv => hitems v (Array.mem_toList_iff.mp hv))
      fun candidates hcandidates => ?_
    cases candidates with
    | nil => exact ensures_error
    | cons v rest => exact hbest hcandidates
  · refine Ensures.bind (A := fun vs => ∀ v ∈ vs, P v) (ensures_ok hargs)
      fun candidates hcandidates => ?_
    cases candidates with
    | nil => exact ensures_error
    | cons v rest => exact hbest hcandidates

theorem ensures_addNumbers {P : Value → Prop} (hnumber : ∀ {v : Value}, v.isNumber = true → P v)
    {total : Value} (htotal : P total) (vs : List Value) : Ensures P (addNumbers total vs) := by
  induction vs generalizing total with
  | nil => exact ensures_ok htotal
  | cons v vs ih =>
    rw [addNumbers]
    split
    · next result hresult =>
      exact (givesNumber_numberBinary hresult).bind fun total htotal => ih (hnumber htotal)
    · exact ensures_error

end NoteShell.Script
