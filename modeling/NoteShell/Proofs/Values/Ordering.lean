import Mathlib.Data.List.Perm.Subperm
import Mathlib.Data.List.ProdSigma
import Mathlib.Data.String.Basic
import Mathlib.Order.Compare
import NoteShell.Proofs.Values.Entries
import NoteShell.Script.Compare

/-!
# The order of values

A value that does not contain itself, and no floats or functions, has a form: a tree in which truth
values are integers and a dict is the function that gives the values of its keys. Two such values
are equal just where their forms are, and their order is one of the forms. The order of forms is
transitive, although not all forms have an order: two lists have one as far as the first items in
which they differ do.

A comparison of values that contain themselves may have no end. It has none if it does not end down
to the depth of comparisons: with every level below that one more pair of containers gets its
answer, or none does from there on.

## Main definitions

* `Value.IsPlain` : values of numbers, texts, ranges, lists and dicts that do not contain
  themselves.
* `Form` : the forms of values.
* `Form.order` : the order of two forms, if they have one.
* `Deepens` : answers about pairs of values that are found from those one level below.

## Main results

* `PlainWithin.le_size` : a value nests no more containers than the heap has.
* `equalValues_iff` : values are equal just where their forms are.
* `compareValues_eq` : the order of values is the order of their forms.
* `Form.order_trans` : the order of forms is transitive.
* `equalWithin_eq_none`, `compareWithin_eq_none` : a comparison that does not end down to the depth
  of comparisons ends at none.
-/

namespace NoteShell.Script

variable {h : Heap} {locked : Option ListRef} {n m : Nat} {a b v w : Value}

/-! ### Plain values -/

/-- The containers of a heap. -/
def Heap.containers (h : Heap) : List Value :=
  ((List.range h.lists.size).map fun i => .list ⟨i⟩) ++
    (List.range h.dicts.size).map fun i => .dict ⟨i⟩

/-- Values of numbers other than floats, texts, ranges, lists and dicts with distinct keys, with at
most `levels` containers inside each other. -/
inductive PlainWithin (h : Heap) : (levels : Nat) → Value → Prop
  | none (n : Nat) : PlainWithin h n .none
  | bool (n : Nat) (b : Bool) : PlainWithin h n (.bool b)
  | int (n : Nat) (i : Int64) : PlainWithin h n (.int i)
  | str (n : Nat) (s : String) : PlainWithin h n (.str s)
  | range (n : Nat) (r : Range) : PlainWithin h n (.range r)
  | list {n : Nat} {r : ListRef} (hitems : ∀ v ∈ (h.items r).toList, PlainWithin h n v) :
    PlainWithin h (n + 1) (.list r)
  | dict {n : Nat} {r : DictRef} (hkeys : (h.entries r).keys.Nodup)
    (hvalues : ∀ e ∈ h.entries r, PlainWithin h n e.2) : PlainWithin h (n + 1) (.dict r)

/-- A value of numbers other than floats, texts, ranges, lists and dicts with distinct keys, that
does not contain itself. -/
def Value.IsPlain (h : Heap) (v : Value) : Prop := ∃ levels, PlainWithin h levels v

namespace Heap

theorem length_containers (h : Heap) : h.containers.length = h.size := by
  rw [containers, List.length_append, List.length_map, List.length_map, List.length_range,
    List.length_range, size]

/-- A list that holds something is one of the containers. -/
theorem list_mem_containers {r : ListRef} (hv : v ∈ (h.items r).toList) :
    .list r ∈ h.containers := by
  have hr : r.index < h.lists.size := by
    by_contra hr
    rw [items, Array.getD_eq_getD_getElem?, Array.getElem?_eq_none (Nat.le_of_not_lt hr)] at hv
    cases hv
  exact List.mem_append_left _ (List.mem_map.mpr ⟨r.index, List.mem_range.mpr hr, rfl⟩)

/-- A dict that holds something is one of the containers. -/
theorem dict_mem_containers {r : DictRef} {e : String × Value} (he : e ∈ h.entries r) :
    .dict r ∈ h.containers := by
  have hr : r.index < h.dicts.size := by
    by_contra hr
    rw [entries, Array.getD_eq_getD_getElem?, Array.getElem?_eq_none (Nat.le_of_not_lt hr)] at he
    cases he
  exact List.mem_append_right _ (List.mem_map.mpr ⟨r.index, List.mem_range.mpr hr, rfl⟩)

end Heap

namespace PlainWithin

theorem mono (hv : PlainWithin h n v) (hle : n ≤ m) : PlainWithin h m v := by
  induction hv generalizing m with
  | none => exact .none m
  | bool n b => exact .bool m b
  | int n i => exact .int m i
  | str n s => exact .str m s
  | range n r => exact .range m r
  | list _ ih =>
    obtain ⟨m, rfl⟩ := Nat.exists_eq_add_of_le' hle
    exact .list fun v hv => ih v hv (Nat.le_add_left _ m)
  | dict hkeys _ ih =>
    obtain ⟨m, rfl⟩ := Nat.exists_eq_add_of_le' hle
    exact .dict hkeys fun e he => ih e he (Nat.le_add_left _ m)

/-- The containers around a value are different ones, each of which nests more levels than the
value. They are no more than the heap has, which leaves enough levels for the value. -/
theorem of_outer {levels : Nat} {outer : List Value} (hv : PlainWithin h n v) (hnodup : outer.Nodup)
    (houter : outer ⊆ h.containers) (hdeeper : ∀ o ∈ outer, ¬ PlainWithin h n o)
    (hlevels : levels + outer.length = h.size + 1) : PlainWithin h levels v := by
  -- A container that nests exactly one level more than its parts is a further one around them.
  have hcons {c : Value} {n : Nat} (hc : PlainWithin h (n + 1) c) (hcn : ¬ PlainWithin h n c)
      {outer : List Value} (hnodup : outer.Nodup)
      (hdeeper : ∀ o ∈ outer, ¬ PlainWithin h (n + 1) o) :
      (c :: outer).Nodup ∧ ∀ o ∈ c :: outer, ¬ PlainWithin h n o :=
    ⟨List.nodup_cons.mpr ⟨fun hmem => hdeeper c hmem hc, hnodup⟩,
      List.forall_mem_cons.mpr ⟨hcn, fun o ho hon => hdeeper o ho (hon.mono (Nat.le_succ n))⟩⟩
  have hlength {outer : List Value} (hnodup : outer.Nodup) (houter : outer ⊆ h.containers) :
      outer.length ≤ h.size :=
    h.length_containers ▸ (hnodup.subperm houter).length_le
  induction n generalizing v outer levels with
  | zero => exact hv.mono (Nat.zero_le levels)
  | succ n ih =>
    by_cases hvn : PlainWithin h n v
    · exact ih hvn hnodup houter (fun o ho hon => hdeeper o ho (hon.mono (Nat.le_succ n))) hlevels
    · obtain ⟨hnodup', hdeeper'⟩ := hcons hv hvn hnodup hdeeper
      have hle := hlength hnodup houter
      obtain ⟨levels, rfl⟩ : ∃ k, levels = k + 1 := ⟨levels - 1, by omega⟩
      cases hv with
      | none => exact .none _
      | bool _ b => exact .bool _ b
      | int _ i => exact .int _ i
      | str _ s => exact .str _ s
      | range _ r => exact .range _ r
      | list hitems =>
        refine .list fun w hw => ?_
        have houter' := List.cons_subset.mpr ⟨Heap.list_mem_containers hw, houter⟩
        exact ih (hitems w hw) hnodup' houter' hdeeper' (by rw [List.length_cons]; omega)
      | dict hkeys hvalues =>
        refine .dict hkeys fun e he => ?_
        have houter' := List.cons_subset.mpr ⟨Heap.dict_mem_containers he, houter⟩
        exact ih (hvalues e he) hnodup' houter' hdeeper' (by rw [List.length_cons]; omega)

/-- A value nests no more containers than the heap has, and perhaps one that holds nothing. -/
theorem le_size (hv : PlainWithin h n v) : PlainWithin h (h.size + 1) v :=
  hv.of_outer .nil (List.nil_subset _) nofun rfl

end PlainWithin

/-! ### Forms -/

/-- The forms of values. Truth values are integers, and a dict is what it has for its keys. -/
inductive Form where
  | none
  | int (i : Int)
  | str (s : String)
  | range (r : Range)
  | list (items : List Form)
  | dict (value? : String → Option Form)

/-- The form of a value, looking at containers down to a depth. -/
def Value.formWithin (h : Heap) : (depth : Nat) → Value → Form
  | _, .bool b => .int (if b then (1 : Int64) else 0).toInt
  | _, .int i => .int i.toInt
  | _, .str s => .str s
  | _, .range r => .range r
  | depth + 1, .list r => .list ((h.items r).toList.map (formWithin h depth))
  | depth + 1, .dict r => .dict fun key => (Entries.get? key (h.entries r)).map (formWithin h depth)
  | _, _ => .none

/-- The form of a value. -/
def Value.form (h : Heap) (v : Value) : Form := v.formWithin h (comparisonDepth h)

theorem PlainWithin.formWithin_eq (hv : PlainWithin h n v) (hle : n ≤ m) :
    v.formWithin h m = v.formWithin h n := by
  induction hv generalizing m with
  | none n => cases m <;> cases n <;> rfl
  | bool n b => cases m <;> cases n <;> rfl
  | int n i => cases m <;> cases n <;> rfl
  | str n s => cases m <;> cases n <;> rfl
  | range n r => cases m <;> cases n <;> rfl
  | @list n r _ ih =>
    obtain ⟨m, rfl⟩ := Nat.exists_eq_add_of_le' hle
    exact congrArg Form.list (List.map_congr_left fun v hv => ih v hv (Nat.le_add_left _ m))
  | @dict n r _ _ ih =>
    obtain ⟨m, rfl⟩ := Nat.exists_eq_add_of_le' hle
    refine congrArg Form.dict (funext fun key => Option.map_congr fun v hv => ?_)
    exact ih _ (Entries.mem_of_get? hv) (Nat.le_add_left _ m)

/-! ### Equality -/

/-- Two lists are equal item by item just where they have the same forms. -/
theorem items_equal_iff {xs ys : List Value} {equal : Value → Value → Option Bool}
    {f : Value → Form} (hequal : ∀ x ∈ xs, ∀ y ∈ ys, (equal x y = some true ↔ f x = f y)) :
    List.Forall₂ (fun x y => equal x y = some true) xs ys ↔ xs.map f = ys.map f := by
  rw [← List.forall₂_eq_eq_eq, List.forall₂_map_left_iff, List.forall₂_map_right_iff,
    List.forall₂_iff_zip, List.forall₂_iff_zip]
  refine and_congr_right fun _ => forall₂_congr fun x y => ?_
  exact imp_congr_right fun hxy =>
    hequal x (List.of_mem_zip hxy).1 y (List.of_mem_zip hxy).2

/-- Two dicts with distinct keys are equal entry by entry just where they have values of the same
forms for all keys. -/
theorem entries_equal_iff {es es' : Entries} (hkeys : es.keys.Nodup) (hkeys' : es'.keys.Nodup)
    {equal : Value → Value → Option Bool} {f : Value → Form}
    (hequal : ∀ e ∈ es, ∀ e' ∈ es', (equal e.2 e'.2 = some true ↔ f e.2 = f e'.2)) :
    (es.length = es'.length ∧ ∀ e ∈ es, ∃ v, es'.get? e.1 = some v ∧ equal e.2 v = some true) ↔
      ∀ key, (es.get? key).map f = (es'.get? key).map f := by
  constructor
  · rintro ⟨hlength, hall⟩ key
    cases hget : es.get? key with
    | some v =>
      have he := Entries.mem_of_get? hget
      obtain ⟨v', hget', hvv'⟩ := hall _ he
      rw [hget']
      exact congrArg some ((hequal _ he _ (Entries.mem_of_get? hget')).mp hvv')
    | none =>
      have hsubset : es.keys ⊆ es'.keys := fun k hk => by
        obtain ⟨e, he, rfl⟩ := List.mem_map.mp hk
        obtain ⟨v', hget', -⟩ := hall e he
        exact List.mem_map.mpr ⟨_, Entries.mem_of_get? hget', rfl⟩
      have hperm : es.keys.Perm es'.keys :=
        (hkeys.subperm hsubset).perm_of_length_le (by simp [Entries.keys, hlength])
      have hget' : es'.get? key = none := by
        rw [Entries.get?_eq_none_iff, ← hperm.mem_iff]
        exact Entries.get?_eq_none_iff.mp hget
      rw [hget']
  · intro hforms
    have hmem (key : String) : key ∈ es.keys ↔ key ∈ es'.keys := by
      rw [← not_iff_not, ← Entries.get?_eq_none_iff, ← Entries.get?_eq_none_iff,
        ← Option.map_eq_none_iff (f := f), hforms, Option.map_eq_none_iff]
    refine ⟨?_, fun e he => ?_⟩
    · have hperm : es.keys.Perm es'.keys := (List.perm_ext_iff_of_nodup hkeys hkeys').mpr hmem
      simpa [Entries.keys] using hperm.length_eq
    · have hform := hforms e.1
      rw [Entries.get?_of_mem hkeys he] at hform
      obtain ⟨v, hv, hfv⟩ := Option.map_eq_some_iff.mp hform.symm
      exact ⟨v, hv, (hequal e he (e.1, v) (Entries.mem_of_get? hv)).mpr hfv.symm⟩

theorem equalWithin_scalar (hlist : ∀ r, a ≠ .list r) (hdict : ∀ r, a ≠ .dict r) :
    equalWithin h locked n a b = some (equalScalars a b) := by
  rw [equalWithin]
  · exact fun r s hr => absurd hr (hlist r)
  · exact fun r s hr => absurd hr (hdict r)

section Answers

variable {equal : Value → Value → Option Bool}

theorem allEqual_iff {ps : List (Value × Value)} :
    allEqual equal ps = some true ↔ ∀ p ∈ ps, equal p.1 p.2 = some true := by
  induction ps with
  | nil => simp [allEqual]
  | cons p ps ih =>
    rw [allEqual, List.forall_mem_cons, ← ih]
    rcases equal p.1 p.2 with _ | _ | _ <;> simp

theorem isSome_allEqual {ps : List (Value × Value)} (h : ∀ p ∈ ps, (equal p.1 p.2).isSome) :
    (allEqual equal ps).isSome := by
  induction ps with
  | nil => rfl
  | cons p ps ih =>
    rw [List.forall_mem_cons] at h
    rw [allEqual]
    split
    · exact ih h.2
    · exact h.1

theorem entriesEqual_iff {es others : Entries} :
    entriesEqual equal others es = some true ↔
      ∀ e ∈ es, ∃ v, others.get? e.1 = some v ∧ equal e.2 v = some true := by
  induction es with
  | nil => simp [entriesEqual]
  | cons e es ih =>
    rw [entriesEqual, List.forall_mem_cons, ← ih]
    cases others.get? e.1 with
    | none => simp
    | some v => rcases hequal : equal e.2 v with _ | _ | _ <;> simp [hequal]

theorem isSome_entriesEqual {es others : Entries} (h : ∀ e ∈ es, ∀ v, (equal e.2 v).isSome) :
    (entriesEqual equal others es).isSome := by
  induction es with
  | nil => rfl
  | cons e es ih =>
    rw [List.forall_mem_cons] at h
    rw [entriesEqual]
    split
    · rfl
    · split
      · exact ih h.2
      · exact h.1 _

end Answers

theorem equalWithin_list_iff {r s : ListRef} :
    equalWithin h none (n + 1) (.list r) (.list s) = some true ↔
      r = s ∨ List.Forall₂ (fun v w => equalWithin h none n v w = some true) (h.items r).toList
        (h.items s).toList := by
  rw [equalWithin, List.forall₂_iff_zip]
  split_ifs with hrs hlocked hlength
  · simp [hrs]
  · rcases hlocked with hlocked | hlocked <;> cases hlocked
  · rw [allEqual_iff, or_iff_right hrs, Array.length_toList, Array.length_toList]
    exact (Prod.forall.trans (and_iff_right hlength).symm)
  · simp [hrs, hlength]

theorem equalWithin_dict_iff {r s : DictRef} :
    equalWithin h locked (n + 1) (.dict r) (.dict s) = some true ↔
      r = s ∨ (h.entries r).length = (h.entries s).length ∧
        ∀ e ∈ h.entries r, ∃ v, (h.entries s).get? e.1 = some v ∧
          equalWithin h locked n e.2 v = some true := by
  rw [equalWithin]
  split_ifs with hrs hlength
  · simp [hrs]
  · rw [entriesEqual_iff, or_iff_right hrs, and_iff_right hlength]
  · simp [hrs, hlength]

/-- A comparison that may go down as many levels as a value has comes to an end. -/
theorem PlainWithin.isSome_equalWithin (ha : PlainWithin h n a) (b : Value) :
    (equalWithin h .none n a b).isSome := by
  induction ha generalizing b with
  | @list n r hitems ih =>
    cases b with
    | list s =>
      rw [equalWithin]
      split_ifs with hrs hlocked
      · rfl
      · rcases hlocked with hlocked | hlocked <;> cases hlocked
      · exact isSome_allEqual fun p hp => ih _ (List.of_mem_zip hp).1 _
      · rfl
    | _ => rfl
  | @dict n r hkeys hvalues ih =>
    cases b with
    | dict s =>
      rw [equalWithin]
      split_ifs with hrs
      · rfl
      · exact isSome_entriesEqual fun e he v => ih e he v
      · rfl
    | _ => rfl
  | _ =>
    rw [equalWithin_scalar (by simp) (by simp)]
    rfl

/-- Two values are equal just where their forms are, however deep the comparison looks beyond
them. -/
theorem PlainWithin.equalWithin_iff (ha : PlainWithin h n a) (hb : PlainWithin h n b) :
    equalWithin h .none n a b = some true ↔ a.formWithin h n = b.formWithin h n := by
  induction ha generalizing b with
  | @list n r hitems ih =>
    cases hb with
    | @list _ s hitems' =>
      have hequal := items_equal_iff fun x hx y hy => ih x hx (hitems' y hy)
      rw [Value.formWithin, Value.formWithin, Form.list.injEq, ← hequal]
      exact equalWithin_list_iff.trans (or_iff_right_of_imp fun hrs => hequal.mpr (by rw [hrs]))
    | _ => simp [equalWithin, equalScalars, Value.formWithin, Value.isNumber]
  | @dict n r hkeys hvalues ih =>
    cases hb with
    | @dict _ s hkeys' hvalues' =>
      have hequal := entries_equal_iff hkeys hkeys' fun e he e' he' => ih e he (hvalues' e' he')
      rw [Value.formWithin, Value.formWithin, Form.dict.injEq, funext_iff, ← hequal]
      exact equalWithin_dict_iff.trans
        (or_iff_right_of_imp fun hrs => hequal.mpr fun key => by rw [hrs])
    | _ => simp [equalWithin, equalScalars, Value.formWithin, Value.isNumber]
  | _ =>
    cases hb <;>
      simp [equalWithin, equalScalars, Value.formWithin, Value.isNumber, equalNumbers, Value.asInt?,
        Int64.toInt_inj]

/-- The levels of a value are within the depth of a comparison. -/
theorem PlainWithin.le_comparisonDepth (hv : PlainWithin h n v) :
    PlainWithin h (comparisonDepth h) v :=
  hv.le_size.mono (Nat.succ_le_succ (Nat.le_mul_self h.size))

/-- The form of a value is seen as soon as all its levels are. -/
theorem PlainWithin.form_eq (hv : PlainWithin h n v) : v.form h = v.formWithin h n :=
  (hv.le_comparisonDepth.formWithin_eq (Nat.le_max_left _ n)).symm.trans
    (hv.formWithin_eq (Nat.le_max_right _ n))

/-- Two values are equal just where their forms are. -/
theorem equalValues_iff (ha : a.IsPlain h) (hb : b.IsPlain h) :
    equalValues h a b = some true ↔ a.form h = b.form h := by
  obtain ⟨n, ha⟩ := ha
  obtain ⟨m, hb⟩ := hb
  exact ha.le_comparisonDepth.equalWithin_iff hb.le_comparisonDepth

/-- The comparison of a value that does not contain itself has an answer. -/
theorem isSome_equalValues (ha : a.IsPlain h) (b : Value) : (equalValues h a b).isSome := by
  obtain ⟨n, ha⟩ := ha
  exact ha.le_comparisonDepth.isSome_equalWithin b

/-! ### The order of forms -/

namespace Form

variable {x y z : Form} {xs ys zs : List Form}

open Classical in
mutual

/-- The order of two forms. Numbers, texts and lists have one among themselves. -/
noncomputable def order : Form → Form → Option Ordering
  | int i, int j => some (compare i j)
  | str s, str t => some (compare s t)
  | list xs, list ys => orderAll xs ys
  | _, _ => Option.none

/-- The order of two lists, as far as their first different items have one. -/
noncomputable def orderAll : List Form → List Form → Option Ordering
  | [], [] => some .eq
  | [], _ :: _ => some .lt
  | _ :: _, [] => some .gt
  | x :: xs, y :: ys => if x = y then orderAll xs ys else order x y

end

theorem orderAll_cons_self (x : Form) (xs ys : List Form) :
    orderAll (x :: xs) (x :: ys) = orderAll xs ys := by
  rw [orderAll, if_pos rfl]

theorem orderAll_cons_of_ne (hxy : x ≠ y) (xs ys : List Form) :
    orderAll (x :: xs) (y :: ys) = x.order y := by
  rw [orderAll, if_neg hxy]

theorem orderAll_self (xs : List Form) : orderAll xs xs = some .eq := by
  induction xs with
  | nil => rfl
  | cons x xs ih => rwa [orderAll_cons_self]

/-- What has an order to anything is equal to itself. -/
theorem order_self {o : Ordering} (h : x.order y = some o) : x.order x = some .eq := by
  cases x with
  | int i => exact congrArg some Std.ReflOrd.compare_self
  | str s => exact congrArg some Std.ReflOrd.compare_self
  | list xs => exact orderAll_self xs
  | _ => cases y <;> simp [order] at h

mutual

theorem order_swap (x y : Form) : y.order x = (x.order y).map Ordering.swap := by
  cases x with
  | list xs =>
    cases y with
    | list ys => exact orderAll_swap xs ys
    | _ => simp [order]
  | int i =>
    cases y with
    | int j => exact congrArg some Std.OrientedOrd.eq_swap
    | _ => simp [order]
  | str s =>
    cases y with
    | str t => exact congrArg some Std.OrientedOrd.eq_swap
    | _ => simp [order]
  | _ => cases y <;> simp [order]

theorem orderAll_swap (xs ys : List Form) :
    orderAll ys xs = (orderAll xs ys).map Ordering.swap := by
  cases xs with
  | nil => cases ys <;> rfl
  | cons x xs =>
    cases ys with
    | nil => rfl
    | cons y ys =>
      by_cases hxy : x = y
      · subst hxy
        rw [orderAll_cons_self, orderAll_cons_self]
        exact orderAll_swap xs ys
      · rw [orderAll_cons_of_ne hxy, orderAll_cons_of_ne (Ne.symm hxy)]
        exact order_swap x y

end

mutual

theorem eq_of_order_eq (x y : Form) (h : x.order y = some .eq) : x = y := by
  cases x with
  | list xs =>
    cases y with
    | list ys => exact congrArg list (eq_of_orderAll_eq xs ys h)
    | _ => simp [order] at h
  | int i =>
    cases y with
    | int j => exact congrArg int (compare_eq_iff_eq.mp (Option.some.inj h))
    | _ => simp [order] at h
  | str s =>
    cases y with
    | str t => exact congrArg str (compare_eq_iff_eq.mp (Option.some.inj h))
    | _ => simp [order] at h
  | _ => cases y <;> simp [order] at h

theorem eq_of_orderAll_eq (xs ys : List Form) (h : orderAll xs ys = some .eq) : xs = ys := by
  cases xs with
  | nil =>
    cases ys with
    | nil => rfl
    | cons y ys => simp [orderAll] at h
  | cons x xs =>
    cases ys with
    | nil => simp [orderAll] at h
    | cons y ys =>
      by_cases hxy : x = y
      · subst hxy
        rw [orderAll_cons_self] at h
        rw [eq_of_orderAll_eq xs ys h]
      · rw [orderAll_cons_of_ne hxy] at h
        exact absurd (eq_of_order_eq x y h) hxy

end

mutual

theorem order_trans (x y z : Form) (hxy : x.order y = some .lt) (hyz : y.order z = some .lt) :
    x.order z = some .lt := by
  cases x with
  | list xs =>
    cases y with
    | list ys =>
      cases z with
      | list zs => exact orderAll_trans xs ys zs hxy hyz
      | _ => simp [order] at hyz
    | _ => simp [order] at hxy
  | int i =>
    cases y with
    | int j =>
      cases z with
      | int k =>
        have hij := compare_lt_iff_lt.mp (Option.some.inj hxy)
        have hjk := compare_lt_iff_lt.mp (Option.some.inj hyz)
        exact congrArg some (compare_lt_iff_lt.mpr (Int.lt_trans hij hjk))
      | _ => simp [order] at hyz
    | _ => simp [order] at hxy
  | str s =>
    cases y with
    | str t =>
      cases z with
      | str u =>
        have hst := compare_lt_iff_lt.mp (Option.some.inj hxy)
        have htu := compare_lt_iff_lt.mp (Option.some.inj hyz)
        exact congrArg some (compare_lt_iff_lt.mpr (String.lt_trans hst htu))
      | _ => simp [order] at hyz
    | _ => simp [order] at hxy
  | _ => cases y <;> simp [order] at hxy

theorem orderAll_trans (xs ys zs : List Form) (hxy : orderAll xs ys = some .lt)
    (hyz : orderAll ys zs = some .lt) : orderAll xs zs = some .lt := by
  cases zs with
  | nil => cases ys <;> simp [orderAll] at hyz
  | cons z zs =>
    cases xs with
    | nil => rfl
    | cons x xs =>
      cases ys with
      | nil => simp [orderAll] at hxy
      | cons y ys =>
        by_cases hx : x = y
        · subst hx
          rw [orderAll_cons_self] at hxy
          by_cases hz : x = z
          · subst hz
            rw [orderAll_cons_self] at hyz ⊢
            exact orderAll_trans xs ys zs hxy hyz
          · rw [orderAll_cons_of_ne hz] at hyz ⊢
            exact hyz
        · rw [orderAll_cons_of_ne hx] at hxy
          by_cases hy : y = z
          · subst hy
            rwa [orderAll_cons_of_ne hx]
          · rw [orderAll_cons_of_ne hy] at hyz
            -- Were the first items equal, each of them would be before the other one.
            have hz : x ≠ z := by
              rintro rfl
              rw [order_swap, hyz] at hxy
              cases hxy
            rw [orderAll_cons_of_ne hz]
            exact order_trans x y z hxy hyz

end

end Form

/-! ### The order of values -/

/-- Lists whose items have forms are ordered as the lists of these forms. -/
theorem compareLists_eq {equal : Value → Value → Option Bool}
    {order : Value → Value → Option (Option Ordering)} {f : Value → Form} {xs ys : List Value}
    (hanswer : ∀ x ∈ xs, ∀ y, (equal x y).isSome)
    (hequal : ∀ x ∈ xs, ∀ y ∈ ys, (equal x y = some true ↔ f x = f y))
    (horder : ∀ x ∈ xs, ∀ y ∈ ys, order x y = some ((f x).order (f y))) :
    compareLists equal order xs ys = some (Form.orderAll (xs.map f) (ys.map f)) := by
  induction xs generalizing ys with
  | nil => cases ys <;> rfl
  | cons x xs ih =>
    cases ys with
    | nil => rfl
    | cons y ys =>
      rw [List.map_cons, List.map_cons, compareLists]
      simp only [List.forall_mem_cons] at hanswer hequal horder
      obtain ⟨same, hsame⟩ := Option.isSome_iff_exists.mp (hanswer.1 y)
      have hxy := hequal.1.1
      rw [hsame] at hxy ⊢
      cases same with
      | true =>
        rw [hxy.mp rfl, Form.orderAll_cons_self]
        exact ih hanswer.2 (fun x hx => (hequal.2 x hx).2) fun x hx => (horder.2 x hx).2
      | false =>
        rw [Form.orderAll_cons_of_ne fun hforms =>
          Bool.noConfusion (Option.some.inj (hxy.mpr hforms))]
        exact horder.1.1

theorem compareInts_eq (i j : Int64) : compareInts i j = compare i.toInt j.toInt := rfl

theorem compareTexts_eq (s t : String) : compareTexts s t = compare s t := rfl

/-- The order of two values is the order of their forms, as soon as the comparison looks at all
their levels. -/
theorem PlainWithin.compareWithin_eq (ha : PlainWithin h n a) (hb : PlainWithin h n b) :
    compareWithin h n a b = some ((a.formWithin h n).order (b.formWithin h n)) := by
  induction ha generalizing b with
  | @list n r hitems ih =>
    cases hb with
    | @list _ s hitems' =>
      rw [compareWithin, Value.formWithin, Value.formWithin, Form.order]
      refine compareLists_eq (fun x hx => isSome_equalValues ⟨n, hitems x hx⟩) (fun x hx y hy => ?_)
        fun x hx y hy => ih x hx (hitems' y hy)
      rw [← (hitems x hx).form_eq, ← (hitems' y hy).form_eq]
      exact equalValues_iff ⟨n, hitems x hx⟩ ⟨n, hitems' y hy⟩
    | _ => simp [compareWithin, Value.formWithin, Form.order, Value.isNumber]
  | _ =>
    cases hb <;>
      simp [compareWithin, compareNumbers, compareInts_eq, compareTexts_eq, Value.formWithin,
        Form.order, Value.isNumber, Value.asInt?]

/-- The order of two values is the order of their forms. -/
theorem compareValues_eq (ha : a.IsPlain h) (hb : b.IsPlain h) :
    compareValues h a b = some ((a.form h).order (b.form h)) := by
  obtain ⟨n, ha⟩ := ha
  obtain ⟨m, hb⟩ := hb
  exact ha.le_comparisonDepth.compareWithin_eq hb.le_comparisonDepth

/-! ### Comparisons without an end -/

/-- The pairs of containers of a heap. -/
def Heap.containerPairs (h : Heap) : List (Value × Value) := h.containers ×ˢ h.containers

theorem Heap.length_containerPairs (h : Heap) : h.containerPairs.length = h.size * h.size := by
  rw [containerPairs, List.length_product, length_containers]

theorem Heap.mem_containerPairs (ha : a ∈ h.containers) (hb : b ∈ h.containers) :
    (a, b) ∈ h.containerPairs := List.mem_product.mpr ⟨ha, hb⟩

/-- Answers that are given by others give the same ones too. -/
def AnswersIn {α : Type} (answer answer' : Value → Value → Option α) : Prop :=
  ∀ a b x, answer a b = some x → answer' a b = some x

/-- Answers about pairs of values that are found from those one level below. More answers below do
not change one that is there, and only those about two containers depend on any. -/
structure Deepens {α : Type} (h : Heap)
    (below : (Value → Value → Option α) → Value → Value → Option α)
    (answer : Nat → Value → Value → Option α) : Prop where
  succ : ∀ n, answer (n + 1) = below (answer n)
  zero : AnswersIn (answer 0) (answer 1)
  mono : ∀ {f g}, AnswersIn f g → AnswersIn (below f) (below g)
  pair : ∀ {f g a b}, below f a b ≠ below g a b → (a, b) ∈ h.containerPairs

namespace Deepens

variable {α : Type} {below : (Value → Value → Option α) → Value → Value → Option α}
  {answer : Nat → Value → Value → Option α} (hanswer : Deepens h below answer)

include hanswer

theorem answersIn_succ (n : Nat) : AnswersIn (answer n) (answer (n + 1)) := by
  induction n with
  | zero => exact hanswer.zero
  | succ n ih =>
    rw [hanswer.succ n, hanswer.succ (n + 1)]
    exact hanswer.mono ih

theorem answersIn_of_le (hle : n ≤ m) : AnswersIn (answer n) (answer m) := by
  induction hle with
  | refl => exact fun _ _ _ hx => hx
  | step _ ih => exact fun a b x hx => hanswer.answersIn_succ _ a b x (ih a b x hx)

theorem eq_of_le (hstable : answer (n + 1) = answer n) (hle : n ≤ m) : answer m = answer n := by
  induction hle with
  | refl => rfl
  | step _ ih => rw [hanswer.succ, ih, ← hanswer.succ, hstable]

/-- Where new answers still come at a depth, they have come for as many pairs as it is deep. -/
theorem exists_pairs (hchange : answer (n + 1) ≠ answer n) (hle : m ≤ n) :
    ∃ pairs : List (Value × Value), pairs.length = m ∧ pairs.Nodup ∧ pairs ⊆ h.containerPairs ∧
      ∀ p ∈ pairs, (answer (m + 1) p.1 p.2).isSome := by
  induction m with
  | zero => exact ⟨[], rfl, .nil, List.nil_subset _, List.forall_mem_nil _⟩
  | succ m ih =>
    obtain ⟨pairs, hlength, hnodup, hsub, hsome⟩ := ih (Nat.le_of_succ_le hle)
    have hnew : answer (m + 2) ≠ answer (m + 1) := fun hstable =>
      hchange ((hanswer.eq_of_le hstable (by omega)).trans (hanswer.eq_of_le hstable hle).symm)
    obtain ⟨a, b, hab⟩ : ∃ a b, answer (m + 2) a b ≠ answer (m + 1) a b := by
      by_contra hall
      push Not at hall
      exact hnew (funext₂ hall)
    have hbefore : answer (m + 1) a b = none := by
      by_contra hsome
      obtain ⟨x, hx⟩ := Option.ne_none_iff_exists'.mp hsome
      exact hab ((hanswer.answersIn_succ _ a b x hx).trans hx.symm)
    have hpair : (a, b) ∈ h.containerPairs := by
      rw [hanswer.succ, hanswer.succ] at hab
      exact hanswer.pair hab
    refine ⟨(a, b) :: pairs, congrArg (· + 1) hlength, List.nodup_cons.mpr ⟨fun hmem => ?_, hnodup⟩,
      List.cons_subset.mpr ⟨hpair, hsub⟩, List.forall_mem_cons.mpr ⟨?_, fun p hp => ?_⟩⟩
    · have hp := hsome _ hmem
      rw [hbefore] at hp
      cases hp
    · rw [Option.isSome_iff_ne_none, ← hbefore]
      exact hab
    · obtain ⟨x, hx⟩ := Option.isSome_iff_exists.mp (hsome p hp)
      exact Option.isSome_iff_exists.mpr ⟨x, hanswer.answersIn_succ _ _ _ x hx⟩

/-- An answer that does not come at the depth of comparisons comes at no depth. -/
theorem eq_none (hab : answer (comparisonDepth h) a b = none) (n : Nat) : answer n a b = none := by
  have hstable : answer (comparisonDepth h + 1) = answer (comparisonDepth h) := by
    by_contra hchange
    obtain ⟨pairs, hlength, hnodup, hsub, -⟩ := hanswer.exists_pairs hchange le_rfl
    have hcount := (hnodup.subperm hsub).length_le
    rw [hlength, h.length_containerPairs, comparisonDepth] at hcount
    omega
  by_contra hsome
  obtain ⟨x, hx⟩ := Option.ne_none_iff_exists'.mp hsome
  have hlater := hanswer.answersIn_of_le (Nat.le_max_left n (comparisonDepth h)) a b x hx
  rw [hanswer.eq_of_le hstable (Nat.le_max_right ..), hab] at hlater
  cases hlater

end Deepens

section Below

variable {f g : Value → Value → Option Bool} (hfg : AnswersIn f g) {x : Bool}

include hfg

theorem allEqual_mono {ps : List (Value × Value)} (hps : allEqual f ps = some x) :
    allEqual g ps = some x := by
  induction ps with
  | nil => exact hps
  | cons p ps ih =>
    obtain ⟨a, b⟩ := p
    rw [allEqual] at hps ⊢
    rcases hab : f a b with _ | same <;> rw [hab] at hps
    · cases hps
    · rw [hfg a b same hab]
      cases same with
      | true => exact ih hps
      | false => exact hps

theorem entriesEqual_mono {es others : Entries} (hes : entriesEqual f others es = some x) :
    entriesEqual g others es = some x := by
  induction es with
  | nil => exact hes
  | cons e es ih =>
    obtain ⟨key, a⟩ := e
    rw [entriesEqual] at hes ⊢
    cases hget : Entries.get? key others with
    | none => rwa [hget] at hes
    | some b =>
      rw [hget] at hes
      dsimp only at hes ⊢
      rcases hab : f a b with _ | same <;> rw [hab] at hes
      · cases hes
      · rw [hfg a b same hab]
        cases same with
        | true => exact ih hes
        | false => exact hes

end Below

/-- Equality of two values, found from that of the values in them. -/
def equalBelow (h : Heap) (locked : Option ListRef) (equal : Value → Value → Option Bool) :
    Value → Value → Option Bool
  | .list r, .list s =>
    if r = s then some true
    else if locked = some r ∨ locked = some s then none
    else if (h.items r).size = (h.items s).size then
      allEqual equal ((h.items r).toList.zip (h.items s).toList)
    else some false
  | .dict r, .dict s =>
    if r = s then some true
    else if (h.entries r).length = (h.entries s).length then
      entriesEqual equal (h.entries s) (h.entries r)
    else some false
  | a, b => some (equalScalars a b)

theorem equalWithin_succ (h : Heap) (locked : Option ListRef) (n : Nat) :
    equalWithin h locked (n + 1) = equalBelow h locked (equalWithin h locked n) := by
  funext a b
  cases a <;> cases b <;> rfl

theorem equalBelow_mono {f g : Value → Value → Option Bool} (hfg : AnswersIn f g) :
    AnswersIn (equalBelow h locked f) (equalBelow h locked g) := by
  intro a b x hx
  unfold equalBelow at hx ⊢
  split at hx
  · split_ifs at hx ⊢
    · exact hx
    · exact allEqual_mono hfg hx
    · exact hx
  · split_ifs at hx ⊢
    · exact hx
    · exact entriesEqual_mono hfg hx
    · exact hx
  · exact hx

/-- Only of two containers that hold something does equality depend on that of the values in
them. -/
theorem equalBelow_pair {f g : Value → Value → Option Bool}
    (hne : equalBelow h locked f a b ≠ equalBelow h locked g a b) : (a, b) ∈ h.containerPairs := by
  unfold equalBelow at hne
  split at hne
  · next r s =>
    split_ifs at hne with hrs hlocked hsize
    · exact absurd rfl hne
    · exact absurd rfl hne
    · cases hitems : (h.items r).toList.zip (h.items s).toList with
      | nil =>
        rw [hitems] at hne
        exact absurd rfl hne
      | cons p ps =>
        have hp : p ∈ (h.items r).toList.zip (h.items s).toList := hitems ▸ List.mem_cons_self
        obtain ⟨hleft, hright⟩ := List.of_mem_zip hp
        exact h.mem_containerPairs (h.list_mem_containers hleft) (h.list_mem_containers hright)
    · exact absurd rfl hne
  · next r s =>
    split_ifs at hne with hrs hlength
    · exact absurd rfl hne
    · cases hentries : h.entries r with
      | nil =>
        rw [hentries] at hne
        exact absurd rfl hne
      | cons e es =>
        rw [hentries] at hlength
        obtain ⟨e', es', hother⟩ := List.exists_cons_of_length_eq_add_one hlength.symm
        exact h.mem_containerPairs (h.dict_mem_containers (hentries ▸ List.mem_cons_self))
          (h.dict_mem_containers (hother ▸ List.mem_cons_self))
    · exact absurd rfl hne
  · exact absurd rfl hne

theorem deepens_equalWithin (h : Heap) (locked : Option ListRef) :
    Deepens h (equalBelow h locked) (equalWithin h locked) where
  succ := equalWithin_succ h locked
  zero := by
    intro a b x hx
    rw [equalWithin_succ]
    cases a with
    | list r =>
      cases b with
      | list s =>
        rw [equalWithin] at hx
        rw [equalBelow]
        split_ifs at hx with hrs
        rwa [if_pos hrs]
      | _ => exact hx
    | dict r =>
      cases b with
      | dict s =>
        rw [equalWithin] at hx
        rw [equalBelow]
        split_ifs at hx with hrs
        rwa [if_pos hrs]
      | _ => exact hx
    | _ => rwa [equalWithin_scalar (by simp) (by simp)] at hx
  mono := equalBelow_mono
  pair := equalBelow_pair

/-- The order of two values, found from that of the values in them. -/
def orderBelow (h : Heap) (order : Value → Value → Option (Option Ordering)) :
    Value → Value → Option (Option Ordering)
  | .list r, .list s => compareLists (equalValues h) order (h.items r).toList (h.items s).toList
  | a, b => compareWithin h 0 a b

theorem compareWithin_succ (h : Heap) (n : Nat) :
    compareWithin h (n + 1) = orderBelow h (compareWithin h n) := by
  funext a b
  cases a <;> cases b <;> rfl

theorem compareLists_mono {equal : Value → Value → Option Bool}
    {f g : Value → Value → Option (Option Ordering)} (hfg : AnswersIn f g) {xs ys : List Value}
    {x : Option Ordering} (hxs : compareLists equal f xs ys = some x) :
    compareLists equal g xs ys = some x := by
  induction xs generalizing ys with
  | nil => cases ys <;> exact hxs
  | cons v xs ih =>
    cases ys with
    | nil => exact hxs
    | cons w ys =>
      rw [compareLists] at hxs ⊢
      rcases hvw : equal v w with _ | _ | _ <;> rw [hvw] at hxs
      · cases hxs
      · exact hfg v w x hxs
      · exact ih hxs

theorem deepens_compareWithin (h : Heap) : Deepens h (orderBelow h) (compareWithin h) where
  succ := compareWithin_succ h
  zero := by
    intro a b x hx
    rw [compareWithin_succ]
    unfold orderBelow
    split
    · cases hx
    · exact hx
  mono := by
    intro f g hfg a b x hx
    unfold orderBelow at hx ⊢
    split at hx
    · exact compareLists_mono hfg hx
    · exact hx
  pair := by
    intro f g a b hne
    unfold orderBelow at hne
    split at hne
    · next r s =>
      cases hleft : (h.items r).toList with
      | nil =>
        rw [hleft] at hne
        cases hright : (h.items s).toList <;> rw [hright] at hne <;> exact absurd rfl hne
      | cons v vs =>
        cases hright : (h.items s).toList with
        | nil =>
          rw [hleft, hright] at hne
          exact absurd rfl hne
        | cons w ws =>
          exact h.mem_containerPairs (h.list_mem_containers (hleft ▸ List.mem_cons_self))
            (h.list_mem_containers (hright ▸ List.mem_cons_self))
    · exact absurd rfl hne

/-- Two values whose equality has no answer have none at any depth: comparing them never ends, or
looks into a list that is locked. -/
theorem equalWithin_eq_none (hab : equalUnless h locked a b = none) (n : Nat) :
    equalWithin h locked n a b = none :=
  (deepens_equalWithin h locked).eq_none hab n

/-- Two values whose order has no answer have none at any depth. -/
theorem compareWithin_eq_none (hab : compareValues h a b = none) (n : Nat) :
    compareWithin h n a b = none :=
  (deepens_compareWithin h).eq_none hab n

end NoteShell.Script
