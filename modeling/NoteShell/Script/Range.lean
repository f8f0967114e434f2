import NoteShell.Decimal.Word
import NoteShell.Script.Value

/-!
# Ranges

The terms of an arithmetic progression, counted, reached by their position, and gone through one by
one. Positions one past the end may leave the 64-bit integers; there they stay at the nearest
integer, which bounds the same terms. Going through the terms ends where the next one would leave
the integers.
-/

namespace NoteShell.Script

namespace Range

/-- The number of terms. -/
def length (r : Range) : Nat :=
  let start := r.start.toInt
  let stop := r.stop.toInt
  let step := r.step.toInt
  if 0 < step ∧ start < stop then ((stop - start - 1) / step + 1).toNat
  else if step < 0 ∧ stop < start then ((start - stop - 1) / -step + 1).toNat
  else 0

/-- The term at a position. -/
def term (r : Range) (position : Nat) : Int64 :=
  Decimal.nearestInt64 (r.start.toInt + position * r.step.toInt)

/-- Whether an integer is a term. -/
def contains (r : Range) (i : Int64) : Bool :=
  let inBounds :=
    if 0 < r.step.toInt then r.start.toInt ≤ i.toInt && i.toInt < r.stop.toInt
    else r.stop.toInt < i.toInt && i.toInt ≤ r.start.toInt
  inBounds && (i.toInt - r.start.toInt) % r.step.toInt == 0

/-- The terms from one position up to another. -/
def slice (r : Range) (start stop : Nat) : Range := ⟨r.term start, r.term stop, r.step⟩

end Range

/-- Where one is on the way through a range. Without a step there is no way. -/
structure RangeIter where
  next : Int64
  stop : Int64
  step : Int64
  done : Bool
  done_of_step : step = 0 → done = true

namespace RangeIter

/-- The beginning of a range. -/
def ofRange (r : Range) : RangeIter := ⟨r.start, r.stop, r.step, r.step == 0, by simp⟩

/-- Whether the next term lies before the stop. -/
def inBounds (it : RangeIter) : Bool :=
  if 0 < it.step.toInt then it.next.toInt < it.stop.toInt else it.stop.toInt < it.next.toInt

/-- No terms are left. -/
def finish (it : RangeIter) : RangeIter := { it with done := true, done_of_step := fun _ => rfl }

/-- The next term, if there is one, and where one is then. -/
def advance (it : RangeIter) : Option Int64 × RangeIter :=
  if it.done then (none, it)
  else if it.inBounds then
    match Decimal.int64? (it.next.toInt + it.step.toInt) with
    | some next => (some it.next, { it with next := next })
    | none => (some it.next, it.finish)
  else (none, it.finish)

/-- The distance that is left to go. -/
def distance (it : RangeIter) : Nat :=
  if it.done then 0
  else if 0 < it.step.toInt then (it.stop.toInt - it.next.toInt).toNat
  else (it.next.toInt - it.stop.toInt).toNat

/-- There is a next term as long as one is not done and it lies before the stop. -/
theorem advance_eq_some {it rest : RangeIter} {i : Int64} (h : it.advance = (some i, rest)) :
    it.done = false ∧ it.inBounds = true ∧ i = it.next ∧
      (rest = it.finish ∨
        ∃ next, Decimal.int64? (it.next.toInt + it.step.toInt) = some next ∧
          rest = { it with next := next }) := by
  unfold advance at h
  split at h
  · cases h
  · rename_i hdone
    split at h
    · rename_i hin
      refine ⟨Bool.eq_false_iff.mpr hdone, hin, ?_⟩
      split at h
      · rename_i next hnext
        cases h
        exact ⟨rfl, .inr ⟨next, hnext, rfl⟩⟩
      · cases h
        exact ⟨rfl, .inl rfl⟩
    · cases h

/-- The distance left is positive where there is a next term. -/
theorem distance_pos {it : RangeIter} (hdone : it.done = false) (hin : it.inBounds = true) :
    0 < it.distance := by
  rw [distance, hdone, if_neg (by decide)]
  rw [inBounds] at hin
  split at hin
  · rename_i hpos
    rw [if_pos hpos]
    have := of_decide_eq_true hin
    omega
  · rename_i hneg
    rw [if_neg hneg]
    have := of_decide_eq_true hin
    omega

theorem distance_advance {it rest : RangeIter} {i : Int64}
    (hadvance : it.advance = (some i, rest)) :
    rest.distance < it.distance := by
  obtain ⟨hdone, hin, -, rfl | ⟨next, hnext, rfl⟩⟩ := advance_eq_some hadvance
  · exact distance_pos hdone hin
  · have hstep : it.step.toInt ≠ 0 := fun hzero => by
      rw [it.done_of_step (Int64.toInt_inj.mp hzero)] at hdone
      cases hdone
    have hsum := Decimal.toInt_of_int64? hnext
    have hpos := distance_pos hdone hin
    simp only [distance, hdone, Bool.false_eq_true, if_false, hsum] at hpos ⊢
    by_cases hup : 0 < it.step.toInt
    · simp only [if_pos hup] at hpos ⊢
      omega
    · simp only [if_neg hup] at hpos ⊢
      omega

/-- The terms that are left, after those in `acc`, which are in reverse. -/
def collect (acc : List Int64) (it : RangeIter) : List Int64 :=
  match hadvance : it.advance with
  | (some i, rest) =>
    have := distance_advance hadvance
    collect (i :: acc) rest
  | (none, _) => acc.reverse
termination_by it.distance

theorem collect_of_advance {it rest : RangeIter} {i : Int64} (h : it.advance = (some i, rest))
    (acc : List Int64) : it.collect acc = rest.collect (i :: acc) := by
  rw [collect.eq_def]
  split
  · next hadvance =>
    cases h.symm.trans hadvance
    rfl
  · next hadvance => cases h.symm.trans hadvance

theorem collect_of_end {it : RangeIter} (h : it.advance.1 = none) (acc : List Int64) :
    it.collect acc = acc.reverse := by
  rw [collect.eq_def]
  split
  · next hadvance =>
    rw [hadvance] at h
    cases h
  · rfl

/-- The terms collected so far stay in front. -/
theorem collect_eq_append (it : RangeIter) (acc : List Int64) :
    it.collect acc = acc.reverse ++ it.collect [] := by
  cases hadvance : it.advance with
  | mk i rest =>
    cases i with
    | none =>
      have hend := congrArg Prod.fst hadvance
      rw [collect_of_end hend, collect_of_end hend, List.reverse_nil, List.append_nil]
    | some i =>
      have := distance_advance hadvance
      rw [collect_of_advance hadvance, collect_of_advance hadvance,
        collect_eq_append rest (i :: acc),
        collect_eq_append rest [i], List.reverse_cons, List.append_assoc]
      rfl
termination_by it.distance

end RangeIter

/-- The terms of a range in order. -/
def Range.terms (r : Range) : List Int64 := (RangeIter.ofRange r).collect []

end NoteShell.Script
