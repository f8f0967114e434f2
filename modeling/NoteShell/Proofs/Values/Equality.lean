import NoteShell.Proofs.Values.Ordering

/-!
# Equality of data

Two references to one container are equal without a look at what it holds, and a dict is compared
with another by looking up its own keys only. On values that have a form neither makes a difference:
equality is an equivalence relation, it is found by going through the parts of the values alone, and
it is the same wherever the values are kept and however much of them is shared. It always has an
answer.

## Main definitions

* `EqualParts` : two values whose parts are equal.

## Main results

* `equalValues_iff_parts` : values are equal just where their parts are.
* `equalValues_of_perm` : the order of the entries of a dict does not matter.
* `equality_of_data` : what is said above.
-/

namespace NoteShell.Script

variable {h : Heap} {a b : Value} {r s : ListRef} {d e : DictRef}

/-- The parts of two values are equal: the items of lists in their order, the values of dicts for
all keys, and other values themselves. Whether two containers are the same one does not matter. -/
def EqualParts (h : Heap) (equal : Value → Value → Prop) : Value → Value → Prop
  | .list r, .list s => List.Forall₂ equal (h.items r).toList (h.items s).toList
  | .dict d, .dict e =>
    ∀ key, Option.Rel equal (Entries.get? key (h.entries d)) (Entries.get? key (h.entries e))
  | a, b => equalScalars a b = true

/-! ### Parts of values -/

namespace Value.IsPlain

theorem items (hr : (Value.list r).IsPlain h) : ∀ v ∈ (h.items r).toList, v.IsPlain h := by
  obtain ⟨levels, hr⟩ := hr
  cases hr with
  | @list n _ hitems => exact fun v hv => ⟨n, hitems v hv⟩

theorem nodup_keys (hd : (Value.dict d).IsPlain h) : (h.entries d).keys.Nodup := by
  obtain ⟨levels, hd⟩ := hd
  cases hd with
  | dict hkeys _ => exact hkeys

theorem entries (hd : (Value.dict d).IsPlain h) : ∀ entry ∈ h.entries d, entry.2.IsPlain h := by
  obtain ⟨levels, hd⟩ := hd
  cases hd with
  | @dict n _ _ hvalues => exact fun entry hentry => ⟨n, hvalues entry hentry⟩

/-- The form of a list has the forms of its items. -/
theorem form_list (hr : (Value.list r).IsPlain h) :
    (Value.list r).form h = .list ((h.items r).toList.map (Value.form h)) := by
  obtain ⟨levels, hr⟩ := hr
  cases hr with
  | list hitems =>
    rw [(PlainWithin.list hitems).form_eq, formWithin]
    exact congrArg Form.list (List.map_congr_left fun v hv => (hitems v hv).form_eq.symm)

/-- The form of a dict has the forms of its values. -/
theorem form_dict (hd : (Value.dict d).IsPlain h) :
    (Value.dict d).form h =
      .dict fun key => (Entries.get? key (h.entries d)).map (Value.form h) := by
  obtain ⟨levels, hd⟩ := hd
  cases hd with
  | dict hkeys hvalues =>
    rw [(PlainWithin.dict hkeys hvalues).form_eq, formWithin]
    refine congrArg Form.dict (funext fun key => Option.map_congr fun v hv => ?_)
    exact (hvalues (key, v) (Entries.mem_of_get? hv)).form_eq.symm

end Value.IsPlain

/-! ### Equality by parts -/

/-- Two values that may be missing are equal just where they have the same forms. -/
theorem option_rel_iff {x y : Option Value} {equal : Value → Value → Prop} {f : Value → Form}
    (hequal : ∀ v ∈ x, ∀ w ∈ y, (equal v w ↔ f v = f w)) :
    Option.Rel equal x y ↔ x.map f = y.map f := by
  cases x with
  | none => cases y <;> simp
  | some v =>
    cases y with
    | none => simp
    | some w => simpa using hequal v rfl w rfl

theorem equalValues_list_iff (hr : (Value.list r).IsPlain h) (hs : (Value.list s).IsPlain h) :
    equalValues h (.list r) (.list s) = some true ↔
      List.Forall₂ (fun v w => equalValues h v w = some true)
        (h.items r).toList (h.items s).toList := by
  have hequal : ∀ v ∈ (h.items r).toList, ∀ w ∈ (h.items s).toList,
      (equalValues h v w = some true ↔ v.form h = w.form h) :=
    fun v hv w hw => equalValues_iff (hr.items v hv) (hs.items w hw)
  rw [equalValues_iff hr hs, hr.form_list, hs.form_list, Form.list.injEq, items_equal_iff hequal]

theorem equalValues_dict_iff (hd : (Value.dict d).IsPlain h) (he : (Value.dict e).IsPlain h) :
    equalValues h (.dict d) (.dict e) = some true ↔
      ∀ key, Option.Rel (fun v w => equalValues h v w = some true) (Entries.get? key (h.entries d))
        (Entries.get? key (h.entries e)) := by
  rw [equalValues_iff hd he, hd.form_dict, he.form_dict, Form.dict.injEq, funext_iff]
  refine forall_congr' fun key => (option_rel_iff fun v hv w hw => ?_).symm
  exact equalValues_iff (hd.entries _ (Entries.mem_of_get? hv))
    (he.entries _ (Entries.mem_of_get? hw))

/-- Two values are equal just where their parts are. -/
theorem equalValues_iff_parts (ha : a.IsPlain h) (hb : b.IsPlain h) :
    equalValues h a b = some true ↔
      EqualParts h (fun v w => equalValues h v w = some true) a b := by
  cases a with
  | list r =>
    cases b with
    | list s => exact equalValues_list_iff ha hb
    | _ => exact Option.some_inj
  | dict d =>
    cases b with
    | dict e => exact equalValues_dict_iff ha hb
    | _ => exact Option.some_inj
  | _ => cases b <;> exact Option.some_inj

/-! ### The order of entries -/

/-- A dict with the same entries in another order is plain as well. -/
theorem Value.IsPlain.of_perm (hd : (Value.dict d).IsPlain h)
    (hperm : (h.entries d).Perm (h.entries e)) : (Value.dict e).IsPlain h := by
  obtain ⟨levels, hd⟩ := hd
  cases hd with
  | dict hkeys hvalues =>
    exact ⟨_, .dict ((hperm.map Prod.fst).nodup_iff.mp hkeys) fun entry hentry =>
      hvalues entry (hperm.mem_iff.mpr hentry)⟩

theorem equalValues_of_perm (hd : (Value.dict d).IsPlain h)
    (hperm : (h.entries d).Perm (h.entries e)) : equalValues h (.dict d) (.dict e) = some true := by
  have he := hd.of_perm hperm
  rw [equalValues_iff hd he, hd.form_dict, he.form_dict]
  exact congrArg Form.dict (funext fun key =>
    congrArg (Option.map _) (Entries.get?_of_perm hd.nodup_keys hperm key).symm)

/-! ### Equality of data -/

/-- On values of numbers other than floats, texts, ranges, lists and dicts with distinct keys, that
do not contain themselves, equality is an equivalence relation. Two of them are equal just where
their parts are, also where they are one container. The order of the entries of a dict does not
matter, a value may be replaced by one equal to it, and values of the same forms compare alike in
any two heaps, however much of them either heap shares. The comparison of such a value with any
other one comes to an end. -/
theorem equality_of_data (h : Heap) :
    (Equivalence fun a b : { v : Value // v.IsPlain h } => equalValues h a b = some true) ∧
    (∀ a b, a.IsPlain h → b.IsPlain h →
      (equalValues h a b = some true ↔ EqualParts h (fun v w => equalValues h v w = some true) a b)) ∧
    (∀ d e, (Value.dict d).IsPlain h → (h.entries d).Perm (h.entries e) →
      equalValues h (.dict d) (.dict e) = some true) ∧
    (∀ a a' b, a.IsPlain h → a'.IsPlain h → b.IsPlain h → equalValues h a a' = some true →
      equalValues h a b = equalValues h a' b ∧ equalValues h b a = equalValues h b a') ∧
    (∀ h' a b a' b', a.IsPlain h → b.IsPlain h → a'.IsPlain h' → b'.IsPlain h' →
      a.form h = a'.form h' → b.form h = b'.form h' →
      equalValues h a b = equalValues h' a' b') ∧
    ∀ a b, a.IsPlain h → ∃ answer, equalValues h a b = some answer := by
  have hforms {h' : Heap} {a b a' b' : Value} (ha : a.IsPlain h) (hb : b.IsPlain h)
      (ha' : a'.IsPlain h') (hb' : b'.IsPlain h') (haa' : a.form h = a'.form h')
      (hbb' : b.form h = b'.form h') : equalValues h a b = equalValues h' a' b' := by
    have htrue : equalValues h a b = some true ↔ equalValues h' a' b' = some true := by
      rw [equalValues_iff ha hb, equalValues_iff ha' hb', haa', hbb']
    obtain ⟨answer, hanswer⟩ := Option.isSome_iff_exists.mp (isSome_equalValues ha b)
    obtain ⟨answer', hanswer'⟩ := Option.isSome_iff_exists.mp (isSome_equalValues ha' b')
    rw [hanswer, hanswer', Option.some_inj, Option.some_inj, ← Bool.eq_iff_iff] at htrue
    rw [hanswer, hanswer', htrue]
  refine ⟨⟨?refl, ?symm, ?trans⟩, fun a b => equalValues_iff_parts,
    fun d e => equalValues_of_perm, ?replace, fun h' a b a' b' => hforms,
    fun a b ha => Option.isSome_iff_exists.mp (isSome_equalValues ha b)⟩
  case refl => exact fun a => (equalValues_iff a.2 a.2).mpr rfl
  case symm =>
    intro a b hab
    exact (equalValues_iff b.2 a.2).mpr ((equalValues_iff a.2 b.2).mp hab).symm
  case trans =>
    intro a b c hab hbc
    exact (equalValues_iff a.2 c.2).mpr
      (((equalValues_iff a.2 b.2).mp hab).trans ((equalValues_iff b.2 c.2).mp hbc))
  case replace =>
    intro a a' b ha ha' hb haa'
    rw [equalValues_iff ha ha'] at haa'
    exact ⟨hforms ha hb ha' hb haa' rfl, hforms hb ha hb ha' rfl haa'⟩

/-- A list that is held twice and two lists that hold the same number, among them as a truth
value. -/
def sharingHeap : Heap where
  lists := #[#[.int 1], #[.bool true], #[.list ⟨0⟩, .list ⟨0⟩], #[.list ⟨0⟩, .list ⟨1⟩]]
  dicts := #[[("a", .list ⟨0⟩), ("b", .list ⟨1⟩)], [("b", .list ⟨1⟩), ("a", .list ⟨0⟩)]]
  functions := #[]

/-- The list that is held twice may as well be two lists, in the same heap or in another one. -/
theorem equality_of_data_sharing :
    let h' : Heap := ⟨#[#[.int 1], #[.int 1], #[.list ⟨1⟩, .list ⟨0⟩]], #[], #[]⟩
    equalValues sharingHeap (.list ⟨2⟩) (.list ⟨3⟩) = some true ∧
    equalValues sharingHeap (.list ⟨3⟩) (.list ⟨2⟩) = some true ∧
    EqualParts sharingHeap (fun v w => equalValues sharingHeap v w = some true)
      (.list ⟨2⟩) (.list ⟨3⟩) ∧
    equalValues sharingHeap (.dict ⟨0⟩) (.dict ⟨1⟩) = some true ∧
    equalValues h' (.list ⟨2⟩) (.list ⟨2⟩) = some true := by
  intro h'
  have hint (h : Heap) {i : Nat} (hi : h.items ⟨i⟩ = #[.int 1]) : PlainWithin h 1 (.list ⟨i⟩) :=
    .list (by simpa [hi] using .int 0 1)
  have hzero : PlainWithin sharingHeap 1 (.list ⟨0⟩) := hint sharingHeap rfl
  have hone : PlainWithin sharingHeap 1 (.list ⟨1⟩) :=
    .list (by simpa [sharingHeap, Heap.items] using .bool 0 true)
  have htwo : (Value.list ⟨2⟩).IsPlain sharingHeap :=
    ⟨2, .list (by simpa [sharingHeap, Heap.items] using hzero)⟩
  have hthree : (Value.list ⟨3⟩).IsPlain sharingHeap :=
    ⟨2, .list (by simpa [sharingHeap, Heap.items] using ⟨hzero, hone⟩)⟩
  have hdict : (Value.dict ⟨0⟩).IsPlain sharingHeap :=
    ⟨2, .dict (by decide) (by simpa [sharingHeap, Heap.entries] using ⟨hzero, hone⟩)⟩
  have hother : (Value.list ⟨2⟩).IsPlain h' :=
    ⟨2, .list (by simpa [h', Heap.items] using ⟨hint h' rfl, hint h' rfl⟩)⟩
  obtain ⟨hequiv, hparts, hperm, -, hforms, -⟩ := equality_of_data sharingHeap
  have hequal : equalValues sharingHeap (.list ⟨2⟩) (.list ⟨3⟩) = some true := rfl
  refine ⟨hequal, hequiv.symm (x := ⟨_, htwo⟩) (y := ⟨_, hthree⟩) hequal,
    (hparts _ _ htwo hthree).mp hequal, hperm ⟨0⟩ ⟨1⟩ hdict (.swap _ _ _), ?_⟩
  rw [← hforms h' (.list ⟨2⟩) (.list ⟨3⟩) (.list ⟨2⟩) (.list ⟨2⟩) htwo hthree hother hother rfl rfl]
  exact hequal

end NoteShell.Script
