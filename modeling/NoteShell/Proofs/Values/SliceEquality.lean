import NoteShell.Proofs.Regions.Basic
import NoteShell.Proofs.Values.Ordering
import NoteShell.Proofs.Values.Slices
import NoteShell.Script.Operator

/-!
# Equality of ranges and slices

Ranges are equal if their starts, ends and steps are, and so equal ranges stand for the same
integers. In the other direction the integers tell two ranges apart if each of them is tight, which
means that it ends where its next integer would be. A slice of a range is always tight. The slice
that leaves out both bounds has the items of the whole, and it is equal to the whole if the items of
a list equal themselves, or if a range is tight.

## Main definitions

* `Range.IsTight` : a range ends where its next integer would be.
* `Value.EqualsItself` : a value that is equal to itself.

## Main results

* `Range.isTight_slice` : slices of ranges are tight.
* `Range.eq_of_terms` : tight ranges that stand for the same integers are equal.
* `whole_slice_equals` : equality of ranges, and of slices with what they are slices of.
-/

namespace NoteShell.Script

open NoteShell.Grammar NoteShell.Decimal

variable {h : Heap} {w : World} {v x : Value} {L : List Value} {n p q : Nat}

namespace Range

variable {r s : Range}

/-- A range ends where the term after its last one would be. -/
def IsTight (r : Range) : Prop := r.stop = r.term r.length

instance (r : Range) : Decidable r.IsTight := inferInstanceAs (Decidable (_ = _))

theorem term_zero (r : Range) : r.term 0 = r.start := by
  refine Int64.toInt_inj.mp ?_
  have hlow := r.start.le_toInt
  have hhigh := r.start.toInt_lt
  rw [term, toInt_nearestInt64]
  unfold leastInt64 greatestInt64
  omega

theorem length_slice (hpq : p ≤ q) (hq : q ≤ r.length) : (r.slice p q).length = q - p := by
  rw [← length_terms, terms_slice hpq hq, List.length_drop, List.length_take, length_terms,
    Nat.min_eq_left hq]

/-- A slice of a range is tight, whatever the end of the range is. -/
theorem isTight_slice (hpq : p ≤ q) (hq : q ≤ r.length) : (r.slice p q).IsTight := by
  rw [IsTight, length_slice hpq hq]
  rcases Nat.eq_or_lt_of_le hpq with rfl | hpq
  · rw [Nat.sub_self, term_zero]
    rfl
  · have hstart : (r.slice p q).start.toInt = r.start.toInt + p * r.step.toInt :=
      toInt_term (Nat.lt_of_lt_of_le hpq hq)
    have hsteps : ((q - p : Nat) : Int) * r.step.toInt = q * r.step.toInt - p * r.step.toInt := by
      rw [Int.ofNat_sub hpq.le, Int.sub_mul]
    change r.term q = nearestInt64 ((r.slice p q).start.toInt + (q - p : Nat) * r.step.toInt)
    rw [term, hstart, hsteps]
    congr 1
    omega

/-- The slice from the first term to the last one keeps the start and the step. -/
theorem slice_whole (r : Range) : r.slice 0 r.length = ⟨r.start, r.term r.length, r.step⟩ := by
  rw [slice, term_zero]

theorem IsTight.slice_whole_eq (hr : r.IsTight) : r.slice 0 r.length = r := by
  rw [slice_whole, ← hr]

/-- Two terms determine the start and the step. -/
theorem start_step_of_terms (hterms : r.terms = s.terms) (hlength : 2 ≤ r.length) :
    r.start = s.start ∧ r.step = s.step := by
  have hlength' : 2 ≤ s.length := by rwa [← length_terms, ← hterms, length_terms]
  have hterm (n : Nat) (hn : n < 2) : (r.term n).toInt = (s.term n).toInt := by
    have hsome := (getElem?_terms (r := r) (n := n) (by omega)).symm.trans
      ((congrArg (·[n]?) hterms).trans (getElem?_terms (r := s) (n := n) (by omega)))
    rw [Option.some.inj hsome]
  have hfirst := hterm 0 (by decide)
  have hsecond := hterm 1 (by decide)
  rw [toInt_term (by omega), toInt_term (by omega)] at hfirst hsecond
  exact ⟨Int64.toInt_inj.mp (by omega), Int64.toInt_inj.mp (by omega)⟩

/-- Tight ranges that stand for the same integers are equal. Two integers determine the start and
the step, which less than two do not. -/
theorem eq_of_terms (hr : r.IsTight) (hs : s.IsTight) (hterms : r.terms = s.terms)
    (hsame : 2 ≤ r.length ∨ r.start = s.start ∧ r.step = s.step) : r = s := by
  obtain ⟨hstart, hstep⟩ := hsame.elim (start_step_of_terms hterms) id
  have hlength : r.length = s.length := by rw [← length_terms, hterms, length_terms]
  have hstop : r.stop = s.stop := by rw [hr, hs, hlength, term, term, hstart, hstep]
  cases r
  cases s
  cases hstart
  cases hstep
  cases hstop
  rfl

end Range

/-! ### Values that equal themselves -/

/-- All values equal themselves but undefined numbers and methods. -/
def Value.EqualsItself : Value → Prop
  | .float x => (x == x) = true
  | .strMethod .. | .listMethod .. | .dictMethod .. => False
  | _ => True

theorem equalWithin_self_iff : equalWithin h .none n v v = some true ↔ v.EqualsItself := by
  cases v with
  | list r => cases n <;> simp [equalWithin, Value.EqualsItself]
  | dict r => cases n <;> simp [equalWithin, Value.EqualsItself]
  | _ =>
    rw [equalWithin_scalar (by simp) (by simp)]
    simp [equalScalars, equalNumbers, Value.EqualsItself, Value.isNumber, Value.asInt?,
      Value.asFloat?]

theorem compares_range_iff {r s : Range} :
    compares .equal (.range r) (.range s) h = .ok true ↔ r = s := by
  rw [compares, equalValues, equalUnless, equalWithin_scalar (by simp) (by simp), orCrash,
    Except.ok.injEq]
  exact beq_iff_eq

/-! ### Slices without bounds -/

theorem sliceOf_str (s : String) (h : Heap) : sliceOf (.str s) none none h = (.ok (.str s), h) := by
  have hall : (s.toList.drop 0).take (max s.length 0 - 0) = s.toList := by
    rw [List.drop_zero, List.take_of_length_le (by rw [String.length_toList]; omega)]
  rw [sliceOf_of_bounds (p := 0) (q := s.length) rfl rfl rfl]
  change (Except.ok (Value.str (String.ofList ((s.toList.drop 0).take _))), h) = _
  rw [hall, String.ofList_toList]

theorem sliceOf_list (r : ListRef) (h : Heap) :
    sliceOf (.list r) none none h = (.ok (h.newList (h.items r)).1, (h.newList (h.items r)).2) := by
  rw [sliceOf_of_bounds (p := 0) (q := (h.items r).size) rfl rfl rfl]
  change HeapM.perform (.newList ((h.items r).extract 0 (max (h.items r).size 0))) h = _
  rw [Nat.max_zero, Array.extract_size]
  rfl

theorem sliceOf_range {r : Range} (hr : r.length ≤ greatestInt64) (h : Heap) :
    sliceOf (.range r) none none h = (.ok (.range (r.slice 0 r.length)), h) := by
  have hlength : slicedLength h (.range r) = .ok r.length := rangeLength_of_le hr
  rw [sliceOf_of_bounds (p := 0) (q := r.length) hlength rfl rfl, Nat.max_zero]
  rfl

/-- A copy of a list is equal to the list if its items equal themselves. -/
theorem equalValues_newList_iff (h : Heap) (r : ListRef) :
    equalValues (h.newList (h.items r)).2 (h.newList (h.items r)).1 (.list r) = some true ↔
      ∀ v ∈ (h.items r).toList, v.EqualsItself := by
  have hcopy : (h.newList (h.items r)).2.items ⟨h.lists.size⟩ = h.items r := by
    simp [Heap.newList, Heap.items]
  have hold : (h.newList (h.items r)).2.items r = h.items r :=
    (h.items_newList_cases _ r).elim id id
  change equalWithin _ _ (_ + 1) (.list ⟨h.lists.size⟩) (.list r) = some true ↔ _
  rw [equalWithin_list_iff, hcopy, hold, List.forall₂_same]
  simp only [equalWithin_self_iff, or_iff_right_iff_imp]
  -- A reference to no list has no items.
  rintro rfl
  simp [Heap.items]

/-- Equal ranges stand for the same integers, and tight ranges that stand for the same integers are
equal, if these are two integers at least or the ranges have the same start and step. The slice of a
text, a list or a range that leaves out both bounds has the items of the whole. It is equal to a
text, to a list if the items of the list equal themselves, and to a range if the range is tight,
which the slice itself always is. -/
theorem whole_slice_equals (w : World) :
    (∀ (h : Heap) (r s : Range), compares .equal (.range r) (.range s) h = .ok true →
      r.terms = s.terms) ∧
    (∀ (h : Heap) (r s : Range), r.IsTight → s.IsTight → r.terms = s.terms →
      2 ≤ r.length ∨ r.start = s.start ∧ r.step = s.step →
      compares .equal (.range r) (.range s) h = .ok true) ∧
    ∀ (x : Value) (L : List Value), sequence? w.heap x = some L →
      (∀ r, x = .range r → (r.length : Int) ≤ greatestInt64) →
      ∃ y h, Work.onHeap (sliceOf x none none) w = (.ok y, ⟨h, w.host⟩) ∧
        sequence? h y = some L ∧
        (∀ s, x = .str s → compares .equal y x h = .ok true) ∧
        (∀ r, x = .list r → (compares .equal y x h = .ok true ↔ ∀ v ∈ L, v.EqualsItself)) ∧
        ∀ r, x = .range r → (∃ s, y = .range s ∧ s.IsTight) ∧
          (r.IsTight → compares .equal y x h = .ok true) := by
  refine ⟨fun h r s heq => congrArg Range.terms (compares_range_iff.mp heq),
    fun h r s hr hs hterms hsame => compares_range_iff.mpr (Range.eq_of_terms hr hs hterms hsame),
    fun x L hx hrange => ?_⟩
  cases x with
  | str s =>
    refine ⟨.str s, w.heap, ?_, hx, fun _ _ => ?_, nofun, nofun⟩
    · exact Work.onHeap_of_eq (sliceOf_str s w.heap)
    · rw [compares, orCrash_eq_ok_iff, equalValues, equalUnless]
      exact equalWithin_self_iff.mpr trivial
  | list r =>
    cases hx
    refine ⟨_, (w.heap.newList (w.heap.items r)).2, ?_, sequence?_newList _ _, nofun,
      fun r' hr' => ?_, nofun⟩
    · exact Work.onHeap_of_eq (sliceOf_list r w.heap)
    · rw [compares, orCrash_eq_ok_iff]
      exact equalValues_newList_iff w.heap r
  | range r =>
    cases hx
    refine ⟨.range (r.slice 0 r.length), w.heap, ?_, ?_, nofun, nofun, fun r' hr' =>
      ⟨?_, fun htight => ?_⟩⟩
    · exact Work.onHeap_of_eq (sliceOf_range (hrange r rfl) w.heap)
    · rw [sequence?, Range.terms_slice (Nat.zero_le _) le_rfl, List.drop_zero,
        List.take_of_length_le r.length_terms.le]
    · exact ⟨_, rfl, Range.isTight_slice (Nat.zero_le _) le_rfl⟩
    · cases hr'
      exact compares_range_iff.mpr htight.slice_whole_eq
  | _ => cases hx

/-- A list of a number and a text is equal to its copy, and so is a range, the next integer of which
does not fit 64 bits, to its slice. -/
theorem whole_slice_equals_nearTheEnd :
    let w : World := ⟨⟨#[#[.int 1, .str "a"]], #[], #[]⟩, .ofFiles .empty⟩
    let r : Range := ⟨9223372036854775804, 9223372036854775807, 2⟩
    (∃ y h, Work.onHeap (sliceOf (.list ⟨0⟩) none none) w = (.ok y, ⟨h, w.host⟩) ∧
      compares .equal y (.list ⟨0⟩) h = .ok true) ∧
    r.IsTight ∧
    ∃ s h, Work.onHeap (sliceOf (.range r) none none) w = (.ok (.range s), ⟨h, w.host⟩) ∧
      r.terms = s.terms ∧ compares .equal (.range s) (.range r) h = .ok true := by
  intro w r
  obtain ⟨hterms, -, hslices⟩ := whole_slice_equals w
  have hlist : sequence? w.heap (.list ⟨0⟩) = some [.int 1, .str "a"] := rfl
  have htight : r.IsTight := by decide
  obtain ⟨y, h, hslice, -, -, hequal, -⟩ := hslices _ _ hlist nofun
  refine ⟨⟨y, h, hslice, (hequal _ rfl).mpr (by simp [Value.EqualsItself])⟩, htight, ?_⟩
  have hlength (r' : Range) (hr' : Value.range r = .range r') :
      (r'.length : Int) ≤ greatestInt64 := by
    cases hr'
    decide
  obtain ⟨y, h, hslice, -, -, -, hequal⟩ := hslices (.range r) _ rfl hlength
  obtain ⟨⟨s, rfl, -⟩, hequal⟩ := hequal r rfl
  exact ⟨s, h, hslice, (hterms _ _ _ (hequal htight)).symm, hequal htight⟩

/-- Two ranges without integers differ, a range that does not end where its next integer would be
differs from its slice, and a list of a method differs from its copy. -/
theorem equality_reads_bounds :
    let w : World := ⟨⟨#[#[.strMethod "" .upper]], #[], #[]⟩, .ofFiles .empty⟩
    ((⟨0, 0, 1⟩ : Range).terms = (⟨1, 1, 1⟩ : Range).terms ∧
      compares .equal (.range ⟨0, 0, 1⟩) (.range ⟨1, 1, 1⟩) w.heap = .ok false) ∧
    (Work.onHeap (sliceOf (.range ⟨0, 5, 2⟩) none none) w = (.ok (.range ⟨0, 6, 2⟩), w) ∧
      compares .equal (.range ⟨0, 6, 2⟩) (.range ⟨0, 5, 2⟩) w.heap = .ok false) ∧
    ∃ h, Work.onHeap (sliceOf (.list ⟨0⟩) none none) w = (.ok (.list ⟨1⟩), ⟨h, w.host⟩) ∧
      compares .equal (.list ⟨1⟩) (.list ⟨0⟩) h = .ok false := by
  intro w
  refine ⟨⟨?_, rfl⟩, ⟨Work.onHeap_of_eq (sliceOf_range (by decide) w.heap), rfl⟩, ?_⟩
  · rw [Range.terms_eq, Range.terms_eq]
    rfl
  · exact ⟨_, Work.onHeap_of_eq (sliceOf_list ⟨0⟩ w.heap), rfl⟩

end NoteShell.Script
