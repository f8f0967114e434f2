import NoteShell.Proofs.Values.Data
import NoteShell.Proofs.Values.Ranges

/-!
# Items and slices of sequences

Texts, lists and ranges are sequences. An index selects an item of any of them by the same rule, and
two bounds select a part: the items of a slice are those between the positions that its bounds mean.
The items of a text are its characters, and those of a range its terms.

## Main definitions

* `sequence?` : the items of a text, a list or a range.
* `boundPosition?` : the position that a bound of a slice means.
* `SlicesTo` : the items of a slice.

## Main results

* `getItem_eq` : indexing is looking up a position among the items.
* `slicesTo_of_bounds` : slicing takes the items between two positions.
* `index_and_slice` : what is said above, for all sequences, indices and bounds.
-/

namespace NoteShell.Script

open NoteShell.Decimal

variable {h : Heap} {w : World} {x : Value} {L : List Value} {i : Int64} {n p q : Nat}
  {a b : Option Value}

/-- The items of a text, a list or a range in order. -/
def sequence? (h : Heap) : Value → Option (List Value)
  | .str s => some (s.toList.map fun c => .str (String.singleton c))
  | .list r => some (h.items r).toList
  | .range r => some (r.terms.map .int)
  | _ => none

/-! ### Indices -/

/-- An index from the start is the position itself, and a negative one is counted from the end. -/
theorem position?_of_inside (hlow : -n ≤ i.toInt) (hhigh : i.toInt < n) :
    position? i n = some (if 0 ≤ i.toInt then i.toInt else n + i.toInt).toNat := by
  by_cases hi : i.toInt < 0
  · rw [position?, if_pos hi, if_pos (by omega), if_neg (by omega), Int.add_comm]
  · rw [position?, if_neg hi, if_pos (by omega), if_pos (by omega)]

theorem position?_of_outside (hi : ¬ (-n ≤ i.toInt ∧ i.toInt < n)) : position? i n = none := by
  rw [position?, if_neg]
  split_ifs <;> omega

theorem lt_of_position? (hp : position? i n = some p) : p < n := by
  rw [position?, Option.ite_none_right_eq_some] at hp
  obtain ⟨hbounds, hp⟩ := hp
  rw [Option.some.injEq] at hp
  omega

/-- The item at an index is found by its position among the items. -/
theorem getItem_eq (hx : sequence? h x = some L)
    (hrange : ∀ r, x = .range r → (r.length : Int) ≤ greatestInt64) (shown : Value → String) :
    ∃ e, getItem h shown x (.int i) =
      orIndexError e ((position? i L.length).bind fun n => L[n]?) := by
  cases x with
  | str s =>
    cases hx
    refine ⟨.text, ?_⟩
    rw [List.length_map, String.length_toList, getItem]
    change (orIndexError .text _ >>= _) = _
    cases hp : position? i s.length with
    | none => rfl
    | some p =>
      simp only [Option.bind_some, List.getElem?_map]
      cases s.toList[p]? <;> rfl
  | list r =>
    cases hx
    exact ⟨.list, by simp [getItem, indexOf, Value.asInt?, bind, Except.bind]⟩
  | range r =>
    cases hx
    refine ⟨.range, ?_⟩
    rw [List.length_map, Range.length_terms, getItem]
    change (rangeLength r >>= _) = _
    rw [rangeLength_of_le (hrange r rfl)]
    change (orIndexError .range (position? i r.length) >>= _) = _
    cases hp : position? i r.length with
    | none => rfl
    | some p =>
      rw [Option.bind_some, List.getElem?_map, Range.getElem?_terms (lt_of_position? hp)]
      rfl
  | _ => cases hx

/-! ### Bounds -/

/-- The position among `n` items that a bound of a slice means. A bound that is left out means the
default, and a negative one is counted from the end; what lies outside of the items means the nearer
end. -/
def boundPosition? (n default : Nat) : Option Value → Option Nat
  | none | some .none => some default
  | some (.int i) => some (if 0 ≤ i.toInt then min i.toInt.toNat n else n - (-i.toInt).toNat)
  | some _ => none

theorem sliceBound_eq {default : Nat} (ha : boundPosition? n default a = some p) :
    sliceBound a n default = .ok p := by
  cases a with
  | none =>
    cases ha
    rfl
  | some v =>
    cases v with
    | none =>
      cases ha
      rfl
    | int i =>
      rw [boundPosition?, Option.some.injEq] at ha
      rw [← ha]
      change Except.ok (max 0 (min (if i.toInt < 0 then i.toInt + n else i.toInt) n)).toNat = _
      refine congrArg Except.ok ?_
      split_ifs <;> omega
    | _ => cases ha

theorem le_of_boundPosition? {default : Nat} (hdefault : default ≤ n)
    (ha : boundPosition? n default a = some p) : p ≤ n := by
  cases a with
  | none =>
    cases ha
    exact hdefault
  | some v =>
    cases v with
    | none =>
      cases ha
      exact hdefault
    | int i =>
      rw [boundPosition?, Option.some.injEq] at ha
      split_ifs at ha <;> omega
    | _ => cases ha

/-! ### Slices -/

/-- A slice of a value gives another one of its type, which has the given items, and changes no list
or dict that there is. -/
def SlicesTo (w : World) (x : Value) (a b : Option Value) (items : List Value) : Prop :=
  ∃ y h, Work.onHeap (sliceOf x a b) w = (.ok y, ⟨h, w.host⟩) ∧ y.typeName = x.typeName ∧
    w.heap.Extends h ∧ sequence? h y = some items

theorem slicesTo_of_eq {y : Value} {h : Heap} {items : List Value}
    (hslice : sliceOf x a b w.heap = (.ok y, h)) (htype : y.typeName = x.typeName)
    (hext : w.heap.Extends h) (hitems : sequence? h y = some items) : SlicesTo w x a b items :=
  ⟨y, h, Work.onHeap_of_eq hslice, htype, hext, hitems⟩

theorem sequence?_newList (h : Heap) (items : Array Value) :
    sequence? (h.newList items).2 (h.newList items).1 = some items.toList := by
  simp [sequence?, Heap.newList, Heap.items]

/-- A slice is what lies between its bounds. -/
theorem sliceOf_of_bounds {h : Heap} (hn : slicedLength h x = .ok n) (ha : sliceBound a n 0 = .ok p)
    (hb : sliceBound b n n = .ok q) : sliceOf x a b h = partOf x p (max q p) h := by
  have hfirst : sliceOf x a b h =
      (liftM (sliceBound a n 0) >>= fun first => liftM (sliceBound b n n) >>= fun last =>
        partOf x first (max last first) : HeapOp) h := by
    rw [sliceOf, HeapM.get_bind, HeapM.check_bind, hn]
  rw [hfirst, HeapM.check_bind, ha]
  change (liftM (sliceBound b n n) >>= fun last => partOf x p (max last p) : HeapOp) h = _
  rw [HeapM.check_bind, hb]

/-- The items between two bounds are those from one position up to another. -/
theorem slicesTo_of_bounds (hx : sequence? w.heap x = some L)
    (hrange : ∀ r, x = .range r → (r.length : Int) ≤ greatestInt64)
    (ha : boundPosition? L.length 0 a = some p) (hb : boundPosition? L.length L.length b = some q) :
    SlicesTo w x a b ((L.take (max p q)).drop p) := by
  have hp := le_of_boundPosition? (Nat.zero_le _) ha
  have hq := le_of_boundPosition? (Nat.le_refl _) hb
  have ha := sliceBound_eq ha
  have hb := sliceBound_eq hb
  rw [Nat.max_comm p q]
  cases x with
  | str s =>
    cases hx
    rw [List.length_map, String.length_toList] at ha hb
    refine slicesTo_of_eq (sliceOf_of_bounds rfl ha hb) rfl (.refl w.heap) ?_
    rw [sequence?, String.toList_ofList, ← List.map_take, ← List.map_drop, List.drop_take]
  | list r =>
    cases hx
    rw [Array.length_toList] at ha hb
    refine slicesTo_of_eq (sliceOf_of_bounds rfl ha hb) rfl (w.heap.extends_newList _) ?_
    refine (sequence?_newList w.heap _).trans ?_
    rw [Array.toList_extract, List.extract_eq_take_drop, List.drop_take]
  | range r =>
    cases hx
    rw [List.length_map, Range.length_terms] at ha hb hp hq
    have hlength : slicedLength w.heap (.range r) = .ok r.length := rangeLength_of_le (hrange r rfl)
    refine slicesTo_of_eq (sliceOf_of_bounds hlength ha hb) rfl (.refl w.heap) ?_
    rw [sequence?, Range.terms_slice (Nat.le_max_right q p) (Nat.max_le.mpr ⟨hq, hp⟩),
      List.map_drop, List.map_take]
  | _ => cases hx

/-- An index into a text, a list or a range of `n` items succeeds from `-n` to `n - 1` and gives the
item at this position, counted from the end where the index is negative. A slice has the items
between the positions that its bounds mean, and so a sequence is cut in two at any index. -/
theorem index_and_slice (hx : sequence? w.heap x = some L)
    (hrange : ∀ r, x = .range r → (r.length : Int) ≤ greatestInt64) :
    (∀ (shown : Value → String) (i : Int64),
      (-L.length ≤ i.toInt ∧ i.toInt < L.length → ∃ v,
        getItem w.heap shown x (.int i) = .ok v ∧
        (0 ≤ i.toInt → L[i.toInt.toNat]? = some v) ∧
        (i.toInt < 0 → L[(L.length + i.toInt).toNat]? = some v)) ∧
      (¬ (-L.length ≤ i.toInt ∧ i.toInt < L.length) → ∃ e,
        getItem w.heap shown x (.int i) = .error (.index e))) ∧
    (∀ (a b : Option Value) (p q : Nat), boundPosition? L.length 0 a = some p →
      boundPosition? L.length L.length b = some q →
      SlicesTo w x a b ((L.take (max p q)).drop p)) ∧
    ∀ i : Int64, ∃ front back, SlicesTo w x none (some (.int i)) front ∧
      SlicesTo w x (some (.int i)) none back ∧ front ++ back = L := by
  refine ⟨fun shown i => ⟨fun hi => ?_, fun hi => ?_⟩,
    fun a b p q => slicesTo_of_bounds hx hrange, fun i => ?_⟩
  · obtain ⟨e, hget⟩ := getItem_eq (i := i) hx hrange shown
    have hlt : (if 0 ≤ i.toInt then i.toInt else L.length + i.toInt).toNat < L.length := by
      split_ifs <;> omega
    rw [position?_of_inside hi.1 hi.2, Option.bind_some, List.getElem?_eq_getElem hlt] at hget
    refine ⟨_, hget, fun hpos => ?_, fun hneg => ?_⟩
    · simp only [if_pos hpos] at hlt ⊢
      exact List.getElem?_eq_getElem hlt
    · simp only [if_neg (Int.not_le.mpr hneg)] at hlt ⊢
      exact List.getElem?_eq_getElem hlt
  · obtain ⟨e, hget⟩ := getItem_eq (i := i) hx hrange shown
    rw [position?_of_outside hi] at hget
    exact ⟨e, hget⟩
  · obtain ⟨k, hk⟩ : ∃ k, ∀ default, boundPosition? L.length default (some (.int i)) = some k :=
      ⟨_, fun default => rfl⟩
    have hfront := slicesTo_of_bounds (a := none) hx hrange rfl (hk _)
    have hback := slicesTo_of_bounds (b := none) hx hrange (hk _) rfl
    rw [Nat.zero_max, List.drop_zero] at hfront
    rw [List.take_of_length_le (Nat.le_max_right k _)] at hback
    exact ⟨_, _, hfront, hback, List.take_append_drop k L⟩

/-- The last item of a text of two characters with three bytes, and the last item of a range as a
slice, the end of which does not fit 64 bits and is moved. -/
theorem index_and_slice_nearTheEnd :
    let r : Range := ⟨9223372036854775804, 9223372036854775807, 2⟩
    let w : World := ⟨.empty, .ofFiles .empty⟩
    sequence? w.heap (.str "aé") = some [.str "a", .str "é"] ∧
    (∀ shown, getItem w.heap shown (.str "aé") (.int (-1)) = .ok (.str "é")) ∧
    sequence? w.heap (.range r) = some [.int 9223372036854775804, .int 9223372036854775806] ∧
    SlicesTo w (.range r) (some (.int (-1))) none [.int 9223372036854775806] ∧
    (r.slice 1 2).stop = 9223372036854775807 := by
  intro r w
  have htext : sequence? w.heap (.str "aé") = some [.str "a", .str "é"] := rfl
  have hterms : r.terms = [9223372036854775804, 9223372036854775806] := by
    rw [Range.terms_eq]
    decide
  have hrange : sequence? w.heap (.range r) =
      some [.int 9223372036854775804, .int 9223372036854775806] := by
    rw [sequence?, hterms]
    rfl
  have hlength (r' : Range) (hr' : Value.range r = .range r') :
      (r'.length : Int) ≤ greatestInt64 := by
    cases hr'
    decide
  obtain ⟨hitems, -, -⟩ := index_and_slice htext nofun
  obtain ⟨-, hslices, -⟩ := index_and_slice hrange hlength
  refine ⟨htext, fun shown => ?_, hrange, hslices _ _ 1 2 rfl rfl, by decide⟩
  obtain ⟨v, hv, -, hneg⟩ := (hitems shown (-1)).1 (by decide)
  rw [hv]
  cases hneg (by decide)
  rfl

end NoteShell.Script
