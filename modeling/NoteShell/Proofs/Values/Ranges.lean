import NoteShell.Proofs.Execution.Rounds

/-!
# Ranges as lists

A range stands for the integers from its start on, one step after the other, that come before its
end. Its length is computed by a division, its terms by positions, and membership by a remainder.
All of this agrees with the list of integers, also where the next step or the length would leave the
64-bit integers. A slice of a range bounds the integers that it should, although its end may have
been moved to the nearest 64-bit integer.

## Main definitions

* `Range.integers` : the integers that a range stands for.

## Main results

* `Range.before_iff_lt_length` : the positions of a range are those below its length.
* `Range.map_toInt_terms` : the terms of a range are its integers.
* `Range.contains_iff` : membership in a range is membership among its integers.
* `Range.integers_slice` : a slice of a range stands for a part of its integers.
* `range_denotes` : what a range does as a value is what the list of its integers would do.
-/

namespace NoteShell.Script.Range

open Decimal

variable {r : Range} {i : Int64} {x y : Int} {n p q : Nat}

/-- An integer comes before the end of a range, in the direction of its step. -/
def Before (r : Range) (x : Int) : Prop :=
  (0 < r.step.toInt ∧ x < r.stop.toInt) ∨ (r.step.toInt < 0 ∧ r.stop.toInt < x)

instance (r : Range) (x : Int) : Decidable (r.Before x) :=
  inferInstanceAs (Decidable (_ ∨ _))

/-- The integers from `x` on, one step after the other, as long as they come before the end. -/
def integersFrom (r : Range) (x : Int) : List Int :=
  if r.Before x then x :: r.integersFrom (x + r.step.toInt) else []
termination_by if 0 < r.step.toInt then (r.stop.toInt - x).toNat else (x - r.stop.toInt).toNat
decreasing_by
  unfold Before at *
  split <;> omega

/-- The integers that a range stands for. -/
def integers (r : Range) : List Int := r.integersFrom r.start.toInt

/-! ### Positions -/

/-- What comes before the end after a number of steps does so after fewer steps. -/
theorem Before.of_add (h : r.Before (x + n * r.step.toInt)) : r.Before x := by
  rcases h with ⟨hstep, hx⟩ | ⟨hstep, hx⟩
  · have := Int.mul_nonneg (Int.natCast_nonneg n) (Int.le_of_lt hstep)
    exact .inl ⟨hstep, by omega⟩
  · have := Int.mul_nonpos_of_nonneg_of_nonpos (Int.natCast_nonneg n) (Int.le_of_lt hstep)
    exact .inr ⟨hstep, by omega⟩

/-- The integer at a position is reached in as many steps, if it comes before the end. -/
theorem getElem?_integersFrom_eq_some :
    (r.integersFrom x)[n]? = some y ↔ y = x + n * r.step.toInt ∧ r.Before y := by
  induction n generalizing x with
  | zero =>
    rw [integersFrom.eq_def]
    split_ifs with h
    · simp only [List.getElem?_cons_zero, Option.some.injEq, Int.natCast_zero, Int.zero_mul,
        Int.add_zero]
      exact ⟨fun hxy => hxy ▸ ⟨rfl, h⟩, fun hxy => hxy.1.symm⟩
    · simp only [List.getElem?_nil, reduceCtorEq, Int.natCast_zero, Int.zero_mul, Int.add_zero,
        false_iff, not_and]
      rintro rfl
      exact h
  | succ n ih =>
    have hsteps : x + (n + 1 : Nat) * r.step.toInt = x + r.step.toInt + n * r.step.toInt := by
      rw [Int.natCast_succ, Int.add_mul, Int.one_mul]
      omega
    rw [integersFrom.eq_def]
    split_ifs with h
    · rw [List.getElem?_cons_succ, ih, hsteps]
    · simp only [List.getElem?_nil, reduceCtorEq, false_iff, not_and]
      rintro rfl hy
      exact h hy.of_add

/-- The integers before the end are those after fewer steps than the range has terms. -/
theorem before_iff_lt_length : r.Before (r.start.toInt + n * r.step.toInt) ↔ n < r.length := by
  rw [length]
  split_ifs with hup hdown
  · have hdiv := Int.le_ediv_iff_mul_le (a := n) (b := r.stop.toInt - r.start.toInt - 1) hup.1
    unfold Before
    omega
  · have hdiv := Int.le_ediv_iff_mul_le (a := n) (b := r.start.toInt - r.stop.toInt - 1)
      (Int.neg_pos_of_neg hdown.1)
    rw [Int.mul_neg] at hdiv
    unfold Before
    omega
  · refine iff_of_false (fun h => ?_) (Nat.not_lt_zero n)
    have hstart := h.of_add
    unfold Before at hstart
    omega

theorem getElem?_integers_eq_some :
    r.integers[n]? = some y ↔ y = r.start.toInt + n * r.step.toInt ∧ n < r.length := by
  rw [integers, getElem?_integersFrom_eq_some]
  refine and_congr_right fun hy => ?_
  rw [hy, before_iff_lt_length]

/-- The integers of a range by their positions. -/
theorem integers_eq (r : Range) :
    r.integers = (List.range r.length).map fun n : Nat => r.start.toInt + n * r.step.toInt := by
  ext n y
  rw [getElem?_integers_eq_some, List.getElem?_map]
  by_cases hn : n < r.length
  · simp [hn, eq_comm]
  · simp [hn]

@[simp] theorem length_integers (r : Range) : r.integers.length = r.length := by
  rw [integers_eq, List.length_map, List.length_range]

theorem mem_integers :
    x ∈ r.integers ↔ r.Before x ∧ ∃ n : Nat, x = r.start.toInt + n * r.step.toInt := by
  rw [List.mem_iff_getElem?]
  simp only [integers, getElem?_integersFrom_eq_some]
  tauto

/-- The integers of a range lie between its bounds, in the direction of its step. -/
theorem bounds_of_mem (hx : x ∈ r.integers) :
    (0 < r.step.toInt ∧ r.start.toInt ≤ x ∧ x < r.stop.toInt) ∨
      (r.step.toInt < 0 ∧ r.stop.toInt < x ∧ x ≤ r.start.toInt) := by
  obtain ⟨⟨hstep, hlt⟩ | ⟨hstep, hlt⟩, n, rfl⟩ := mem_integers.mp hx
  · have := Int.mul_nonneg (Int.natCast_nonneg n) (Int.le_of_lt hstep)
    exact .inl ⟨hstep, by omega, hlt⟩
  · have := Int.mul_nonpos_of_nonneg_of_nonpos (Int.natCast_nonneg n) (Int.le_of_lt hstep)
    exact .inr ⟨hstep, hlt, by omega⟩

/-! ### Terms -/

/-- What lies beyond the 64-bit integers in the direction of the step does not come before the
end. -/
theorem not_before_of_int64? (h : int64? (i.toInt + r.step.toInt) = none) :
    ¬ r.Before (i.toInt + r.step.toInt) := by
  have hword := i.le_toInt
  have hword' := i.toInt_lt
  have hstop := r.stop.le_toInt
  have hstop' := r.stop.toInt_lt
  unfold int64? leastInt64 greatestInt64 at h
  split at h
  · cases h
  · unfold Before
    omega

/-- Where the step of an iterator is not zero, there is a next term just where it comes before the
end. -/
theorem inBounds_iff {it : RangeIter} (hdone : it.done = false) (hstop : it.stop = r.stop)
    (hstep : it.step = r.step) : it.inBounds = true ↔ r.Before it.next.toInt := by
  have hzero : it.step.toInt ≠ 0 := fun hzero => by
    rw [it.done_of_step (Int64.toInt_inj.mp hzero)] at hdone
    cases hdone
  rw [hstep] at hzero
  rw [RangeIter.inBounds, hstop, hstep, Before]
  split_ifs <;> rw [decide_eq_true_iff] <;> omega

/-- The terms that an iterator gives are the integers from the next one on. Where the step from a
term leaves the 64-bit integers, this term was the last one. -/
theorem map_toInt_collect (it : RangeIter) (hdone : it.done = false) (hstop : it.stop = r.stop)
    (hstep : it.step = r.step) :
    (it.collect []).map Int64.toInt = r.integersFrom it.next.toInt := by
  have hbounds := inBounds_iff hdone hstop hstep
  rw [integersFrom.eq_def]
  by_cases hin : it.inBounds = true
  · rw [if_pos (hbounds.mp hin), ← hstep]
    cases hnext : int64? (it.next.toInt + it.step.toInt) with
    | none =>
      have hadvance : it.advance = (some it.next, it.finish) := by
        simp only [RangeIter.advance, hdone, hin, hnext, Bool.false_eq_true, if_false, if_true]
      have hend : it.finish.advance.1 = none := rfl
      rw [hstep] at hnext
      rw [RangeIter.collect_of_advance hadvance, RangeIter.collect_of_end hend, hstep,
        integersFrom.eq_def, if_neg (not_before_of_int64? hnext)]
      rfl
    | some next =>
      have hadvance : it.advance = (some it.next, { it with next := next }) := by
        simp only [RangeIter.advance, hdone, hin, hnext, Bool.false_eq_true, if_false, if_true]
      have := RangeIter.distance_advance hadvance
      rw [RangeIter.collect_of_advance hadvance, RangeIter.collect_eq_append, List.map_append,
        map_toInt_collect { it with next := next } hdone hstop hstep, toInt_of_int64? hnext]
      rfl
  · have hend : it.advance.1 = none := by
      simp only [RangeIter.advance, hdone, hin, Bool.false_eq_true, if_false]
    rw [if_neg fun h => hin (hbounds.mpr h), RangeIter.collect_of_end hend]
    rfl
termination_by it.distance

/-- The terms of a range are its integers. No term has overflown. -/
theorem map_toInt_terms (r : Range) : r.terms.map Int64.toInt = r.integers := by
  by_cases hstep : r.step = 0
  · have hend : (RangeIter.ofRange r).advance.1 = none := by
      simp [RangeIter.advance, RangeIter.ofRange, hstep]
    have hbefore : ¬ r.Before r.start.toInt := by
      unfold Before
      rw [hstep]
      rintro (⟨hpos, -⟩ | ⟨hneg, -⟩)
      · exact absurd hpos (by decide)
      · exact absurd hneg (by decide)
    rw [terms, RangeIter.collect_of_end hend, integers, integersFrom.eq_def, if_neg hbefore]
    rfl
  · exact map_toInt_collect (.ofRange r) (beq_eq_false_iff_ne.mpr hstep) rfl rfl

theorem length_terms (r : Range) : r.terms.length = r.length := by
  rw [← length_integers, ← map_toInt_terms, List.length_map]

/-- The term at a position is the one that stands there among all terms. -/
theorem getElem?_terms (hn : n < r.length) : r.terms[n]? = some (r.term n) := by
  have hn' : r.integers[n]? = some (r.start.toInt + n * r.step.toInt) :=
    getElem?_integers_eq_some.mpr ⟨rfl, hn⟩
  rw [← map_toInt_terms, List.getElem?_map, Option.map_eq_some_iff] at hn'
  obtain ⟨i, hi, hvalue⟩ := hn'
  have hlow := i.le_toInt
  have hhigh := i.toInt_lt
  have hnearest : max leastInt64 (min i.toInt greatestInt64) = i.toInt := by
    unfold leastInt64 greatestInt64
    omega
  rw [hi, term, nearestInt64, ← hvalue, hnearest, Int64.ofInt_toInt]

theorem terms_eq (r : Range) : r.terms = (List.range r.length).map r.term := by
  refine List.ext_getElem? fun n => ?_
  by_cases hn : n < r.length
  · simp [getElem?_terms hn, hn]
  · simp [hn, length_terms]

/-! ### Membership -/

theorem contains_eq_true_iff : r.contains i = true ↔
    (if 0 < r.step.toInt then r.start.toInt ≤ i.toInt ∧ i.toInt < r.stop.toInt
      else r.stop.toInt < i.toInt ∧ i.toInt ≤ r.start.toInt) ∧
    r.step.toInt ∣ i.toInt - r.start.toInt := by
  rw [contains, Bool.and_eq_true, beq_iff_eq, Int.dvd_iff_emod_eq_zero]
  refine and_congr_left fun _ => ?_
  split_ifs <;> simp

/-- An integer is found in a range with a step just where it is one of the range's. -/
theorem contains_iff (hstep : r.step ≠ 0) : r.contains i = true ↔ i.toInt ∈ r.integers := by
  have hzero : r.step.toInt ≠ 0 := fun h => hstep (Int64.toInt_inj.mp h)
  rw [contains_eq_true_iff]
  constructor
  · rintro ⟨hbounds, c, hc⟩
    -- The integer is on the side of the start to which the steps go.
    have hsteps : ∃ n : Nat, c = n := by
      refine Int.eq_ofNat_of_zero_le (Int.not_lt.mp fun hneg => ?_)
      split_ifs at hbounds with hpos
      · have := Int.mul_neg_of_pos_of_neg hpos hneg
        omega
      · have := Int.mul_pos_of_neg_of_neg (a := r.step.toInt) (by omega) hneg
        omega
    obtain ⟨n, rfl⟩ := hsteps
    refine mem_integers.mpr ⟨?_, n, by rw [Int.mul_comm]; omega⟩
    split_ifs at hbounds with hpos
    · exact .inl ⟨hpos, hbounds.2⟩
    · exact .inr ⟨by omega, hbounds.1⟩
  · intro hi
    obtain ⟨-, n, hn⟩ := mem_integers.mp hi
    refine ⟨?_, n, by rw [hn, Int.mul_comm]; omega⟩
    rcases bounds_of_mem hi with ⟨hpos, hbounds⟩ | ⟨hneg, hbounds⟩
    · rwa [if_pos hpos]
    · rwa [if_neg (by omega)]

/-! ### Slices -/

theorem toInt_nearestInt64 (x : Int) :
    (nearestInt64 x).toInt = max leastInt64 (min x greatestInt64) := by
  refine Int64.toInt_ofInt_of_le ?_ ?_ <;> unfold leastInt64 greatestInt64 <;> omega

/-- A term is exact, while a position beyond the last one may be moved to the nearest 64-bit
integer. -/
theorem toInt_term (hn : n < r.length) : (r.term n).toInt = r.start.toInt + n * r.step.toInt := by
  have hterm := congrArg (Option.map Int64.toInt) (getElem?_terms hn)
  rw [← List.getElem?_map, map_toInt_terms, Option.map_some, getElem?_integers_eq_some] at hterm
  exact hterm.1

/-- The end of a slice bounds the terms that it should, even where it has been moved. -/
theorem before_slice_iff (hq : 0 < q) (hlength : q ≤ r.length) :
    (r.slice p q).Before (r.start.toInt + n * r.step.toInt) ↔ n < q := by
  obtain ⟨k, rfl⟩ : ∃ k, q = k + 1 := ⟨q - 1, by omega⟩
  have hlast : r.Before (r.start.toInt + k * r.step.toInt) := before_iff_lt_length.mpr hlength
  have hsucc : (k + 1 : Nat) * r.step.toInt = k * r.step.toInt + r.step.toInt := by
    rw [Int.natCast_succ, Int.add_mul, Int.one_mul]
  have hstop : (r.term (k + 1)).toInt = max leastInt64
      (min (r.start.toInt + (k * r.step.toInt + r.step.toInt)) greatestInt64) := by
    rw [term, toInt_nearestInt64, hsucc]
  have hlow := r.start.le_toInt
  have hhigh := r.start.toInt_lt
  have hlow' := r.stop.le_toInt
  have hhigh' := r.stop.toInt_lt
  unfold leastInt64 greatestInt64 at hstop
  change (0 < r.step.toInt ∧ _ < (r.term (k + 1)).toInt) ∨
    (r.step.toInt < 0 ∧ (r.term (k + 1)).toInt < _) ↔ _
  rw [hstop]
  rcases hlast with ⟨hstep, hlt⟩ | ⟨hstep, hlt⟩
  · have hzero := Int.mul_nonneg (Int.natCast_nonneg k) (Int.le_of_lt hstep)
    rcases Nat.lt_or_ge n (k + 1) with hn | hn
    · have hle : n * r.step.toInt ≤ k * r.step.toInt :=
        Int.mul_le_mul_of_nonneg_right (by omega) (Int.le_of_lt hstep)
      omega
    · have hle : (k + 1 : Nat) * r.step.toInt ≤ n * r.step.toInt :=
        Int.mul_le_mul_of_nonneg_right (by omega) (Int.le_of_lt hstep)
      rw [hsucc] at hle
      omega
  · have hzero := Int.mul_nonpos_of_nonneg_of_nonpos (Int.natCast_nonneg k) (Int.le_of_lt hstep)
    rcases Nat.lt_or_ge n (k + 1) with hn | hn
    · have hle : k * r.step.toInt ≤ n * r.step.toInt :=
        Int.mul_le_mul_of_nonpos_right (by omega) (Int.le_of_lt hstep)
      omega
    · have hle : n * r.step.toInt ≤ (k + 1 : Nat) * r.step.toInt :=
        Int.mul_le_mul_of_nonpos_right (by omega) (Int.le_of_lt hstep)
      rw [hsucc] at hle
      omega

/-- A slice of a range stands for the integers between two positions. -/
theorem integers_slice (hpq : p ≤ q) (hq : q ≤ r.length) :
    (r.slice p q).integers = (r.integers.take q).drop p := by
  rcases Nat.eq_or_lt_of_le hpq with rfl | hpq
  · have hempty : ¬ (r.slice p p).Before (r.slice p p).start.toInt := by
      change ¬ ((_ ∧ (r.term p).toInt < (r.term p).toInt) ∨
        (_ ∧ (r.term p).toInt < (r.term p).toInt))
      omega
    rw [integers, integersFrom.eq_def, if_neg hempty,
      List.drop_eq_nil_of_le (List.length_take_le _ _)]
  · ext n y
    have hstart : (r.slice p q).start.toInt = r.start.toInt + p * r.step.toInt :=
      toInt_term (Nat.lt_of_lt_of_le hpq hq)
    have hposition : (r.slice p q).start.toInt + n * r.step.toInt =
        r.start.toInt + (p + n : Nat) * r.step.toInt := by
      rw [hstart, Int.natCast_add, Int.add_mul, Int.add_assoc]
    rw [integers, getElem?_integersFrom_eq_some, List.getElem?_drop, List.getElem?_take]
    change y = (r.slice p q).start.toInt + n * r.step.toInt ∧ _ ↔ _
    rw [hposition]
    by_cases hn : p + n < q
    · rw [if_pos hn, getElem?_integers_eq_some]
      refine and_congr_right fun hy => ?_
      rw [hy, before_slice_iff (Nat.zero_lt_of_lt hpq) hq]
      omega
    · rw [if_neg hn]
      simp only [reduceCtorEq, iff_false, not_and]
      rintro rfl
      rwa [before_slice_iff (Nat.zero_lt_of_lt hpq) hq]

theorem terms_slice (hpq : p ≤ q) (hq : q ≤ r.length) :
    (r.slice p q).terms = (r.terms.take q).drop p := by
  refine (List.map_inj_right fun i j => Int64.toInt_inj.mp).mp ?_
  rw [map_toInt_terms, integers_slice hpq hq, List.map_drop, List.map_take, map_toInt_terms]

end NoteShell.Script.Range

namespace NoteShell.Script

open NoteShell.Grammar NoteShell.Decimal

variable {r : Range}

/-! ### Ranges as values -/

/-- A loop over a range goes through its terms. -/
theorem loopItems_range (r : Range) (h : Heap) :
    ∃ items, LoopItems.ofValue (.range r) h = .ok items ∧ items.toList = r.terms.map Value.int :=
  ⟨_, rfl, rfl⟩

theorem rangeLength_of_le (hr : r.length ≤ greatestInt64) : rangeLength r = .ok r.length :=
  if_pos hr

theorem rangeLength_of_lt (hr : greatestInt64 < r.length) :
    rangeLength r = .error (.overflow .rangeLength) :=
  if_neg (Int.not_le.mpr hr)

/-- The terms of a range are refused where they are too many. -/
theorem rangeTerms_of_le (hr : r.length ≤ maxSequence) : rangeTerms r = .ok r.terms := by
  have hle : (r.length : Int) ≤ greatestInt64 := by
    unfold maxSequence at hr
    unfold greatestInt64
    omega
  have hcheck : checkLength r.length = .ok () := if_neg (Nat.not_lt.mpr hr)
  rw [rangeTerms, rangeLength_of_le hle]
  change (checkLength r.length >>= fun _ => pure r.terms) = _
  rw [hcheck]
  rfl

theorem rangeTerms_of_lt (hr : maxSequence < r.length) :
    ∃ e, rangeTerms r = .error (.overflow e) := by
  rw [rangeTerms]
  by_cases hle : (r.length : Int) ≤ greatestInt64
  · have hcheck : checkLength r.length = .error (.overflow .sequence) := if_pos hr
    rw [rangeLength_of_le hle]
    change ∃ e, (checkLength r.length >>= fun _ => pure r.terms) = _
    rw [hcheck]
    exact ⟨_, rfl⟩
  · rw [rangeLength_of_lt (Int.not_le.mp hle)]
    exact ⟨_, rfl⟩

/-- The items of a range are its terms. -/
theorem itemsOf_range_of_le (h : Heap) (hr : r.length ≤ maxSequence) :
    itemsOf h (.range r) = .ok (r.terms.map Value.int).toArray := by
  rw [itemsOf, rangeTerms_of_le hr]
  rfl

theorem itemsOf_range_of_lt (h : Heap) (hr : maxSequence < r.length) :
    ∃ e, itemsOf h (.range r) = .error (.overflow e) := by
  obtain ⟨e, hterms⟩ := rangeTerms_of_lt hr
  exact ⟨e, by rw [itemsOf, hterms]; rfl⟩

/-- A range counts as true unless it stands for no integers. -/
theorem truthy_range (r : Range) (h : Heap) : truthy h (.range r) = !r.integers.isEmpty := by
  rw [truthy, ← r.length_integers]
  cases r.integers <;> simp

theorem callPureBuiltin_len (sorter : Sorter) (v : Value) (h : Heap) :
    callPureBuiltin sorter .len ⟨[v], []⟩ h =
      (((lengthOf h v).map fun n => .int (Int64.ofNat n)).mapError .error, h) := by
  change (liftM (lengthOf h v) >>= fun n => pure (.int (Int64.ofNat n)) : HeapOp) h = _
  rw [HeapM.check_bind]
  cases lengthOf h v <;> rfl

theorem callPureBuiltin_list (sorter : Sorter) (v : Value) (h : Heap) :
    callPureBuiltin sorter .list ⟨[v], []⟩ h =
      match itemsOf h v with
      | .ok items => (.ok (h.newList items).1, (h.newList items).2)
      | .error e => (.error (.error e), h) := by
  change (liftM (itemsOf h v) >>= fun items => HeapM.perform (.newList items) : HeapOp) h = _
  rw [HeapM.check_bind]
  cases itemsOf h v <;> rfl

/-- A range is what the list of its integers is. Its terms are these integers, none of which has
left the 64 bits; loops run their bodies for them in order, and they are the items that are made
into a list, unless there are too many for a list. Its length is the number of integers, which `len`
gives or refuses. It counts as true unless there are none, and an integer is in it just where it is
one of them. -/
theorem range_denotes (hstep : r.step ≠ 0) (env : Env) (w : World) :
    let L := r.integers
    let items := r.terms.map Value.int
    r.terms.map Int64.toInt = L ∧
    (∀ call names iterable stmts, ∀ s t : State,
      (evalExpr env iterable).run env call s = (.ok (.range r), t) →
      (execStmt env (.forLoop names iterable stmts)).run env call s =
        (forEach (bindLoopNames names) (execBlock env stmts) items).run env call t) ∧
    r.length = L.length ∧
    (L.length ≤ greatestInt64 →
      ∃ n : Int64, n.toInt = L.length ∧
        callBuiltin env .len ⟨[.range r], []⟩ w = (.ok (.int n), w)) ∧
    (greatestInt64 < L.length →
      callBuiltin env .len ⟨[.range r], []⟩ w = (.error (.error (.overflow .rangeLength)), w)) ∧
    truthy w.heap (.range r) = !L.isEmpty ∧
    (L.length ≤ maxSequence →
      itemsOf w.heap (.range r) = .ok items.toArray ∧
      callBuiltin env .list ⟨[.range r], []⟩ w =
        (.ok (w.heap.newList items.toArray).1, ⟨(w.heap.newList items.toArray).2, w.host⟩)) ∧
    (maxSequence < L.length → ∃ e,
      itemsOf w.heap (.range r) = .error (.overflow e) ∧
      callBuiltin env .list ⟨[.range r], []⟩ w = (.error (.error (.overflow e)), w)) ∧
    ∀ i : Int64, isMember (.range r) (.int i) w.heap = .ok (decide (i.toInt ∈ L)) := by
  intro L items
  have hlength : L.length = r.length := r.length_integers
  have hlen := callPureBuiltin_len env.sorter (.range r) w.heap
  have hlist := callPureBuiltin_list env.sorter (.range r) w.heap
  rw [hlength]
  refine ⟨r.map_toInt_terms, ?_, rfl, fun hle => ?_, fun hlt => ?_, truthy_range r w.heap,
    fun hle => ?_, fun hlt => ?_, fun i => ?_⟩
  · intro call names iterable stmts s t hiterable
    obtain ⟨loop, hloop, hitems⟩ := loopItems_range r t.heap
    rw [run_forLoop_forEach hiterable hloop, hitems]
  · have hword : (Int64.ofNat r.length).toInt = r.length := by
      unfold greatestInt64 at hle
      exact Int64.toInt_ofNat_of_lt (by omega)
    refine ⟨_, hword, ?_⟩
    rw [lengthOf, rangeLength_of_le hle] at hlen
    exact Work.onHeap_of_eq hlen
  · rw [lengthOf, rangeLength_of_lt hlt] at hlen
    exact Work.onHeap_of_eq hlen
  · have hitems := itemsOf_range_of_le w.heap hle
    rw [hitems] at hlist
    exact ⟨hitems, Work.onHeap_of_eq hlist⟩
  · obtain ⟨e, hitems⟩ := itemsOf_range_of_lt w.heap hlt
    rw [hitems] at hlist
    exact ⟨e, hitems, Work.onHeap_of_eq hlist⟩
  · rw [isMember, Value.asInt?]
    have hmem := (Range.contains_iff (i := i) hstep).trans decide_eq_true_iff.symm
    exact congrArg Except.ok (Bool.eq_iff_iff.mpr hmem)

/-- A range whose next step would leave the 64 bits, and the one with the most terms, which has no
length. -/
theorem range_denotes_nearTheEnds :
    let r : Range := ⟨9223372036854775804, 9223372036854775807, 2⟩
    let full : Range := ⟨-9223372036854775808, 9223372036854775807, 1⟩
    let env : Env := ⟨.empty [], .empty, 0, .merging⟩
    let s : State := ⟨[("r", .range r)], [], .empty, .ofFiles .empty⟩
    let w : World := ⟨.empty, .ofFiles .empty⟩
    r.integers = [9223372036854775804, 9223372036854775806] ∧
    (execStmt env (.forLoop ["i"] (.name "r") [.pass])).run env (callHere env s) s =
      (forEach (bindLoopNames ["i"]) (execBlock env [.pass])
        [.int 9223372036854775804, .int 9223372036854775806]).run env (callHere env s) s ∧
    (∃ n : Int64, n.toInt = 2 ∧ callBuiltin env .len ⟨[.range r], []⟩ w = (.ok (.int n), w)) ∧
    callBuiltin env .len ⟨[.range full], []⟩ w = (.error (.error (.overflow .rangeLength)), w) ∧
    ∃ e, callBuiltin env .list ⟨[.range full], []⟩ w = (.error (.error (.overflow e)), w) := by
  intro r full env s w
  have hintegers : r.integers = [9223372036854775804, 9223372036854775806] := by
    rw [Range.integers_eq]
    decide
  have hterms : r.terms = [9223372036854775804, 9223372036854775806] := by
    rw [Range.terms_eq]
    decide
  have hlong : full.integers.length = 18446744073709551615 := by
    rw [Range.length_integers]
    decide
  obtain ⟨-, hloop, -, hlen, -⟩ := range_denotes (r := r) (by decide) env w
  obtain ⟨-, -, -, -, hlen', -, -, hlist, -⟩ := range_denotes (r := full) (by decide) env w
  have hrounds := hloop (callHere env s) ["i"] (.name "r") [.pass] s s rfl
  rw [hterms] at hrounds
  rw [hintegers] at hlen
  rw [hlong] at hlen' hlist
  obtain ⟨e, -, he⟩ := hlist (by decide)
  exact ⟨hintegers, hrounds, hlen (by decide), hlen' (by decide), e, he⟩

end NoteShell.Script
