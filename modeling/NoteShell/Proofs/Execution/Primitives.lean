import NoteShell.Proofs.Execution.Discipline
import NoteShell.Proofs.Values.Operators

/-!
# Primitive values and steps

Whatever operations on heaps do, they do it by a few primitive steps: they give a number, a text, a
range or a value that they were given or that a list or dict holds, they make a new list or dict, or
they change the list or dict that they are made on. A discipline that these steps obey is therefore
obeyed by subscripts, slices, assignments to items and operators. The cases of an operation are gone
through here once, in the order of its steps, whatever is to be shown of it: that sizes are kept to,
that a program stays among what it can reach, or that nothing else has changed. On the way it is
seen that no operation fails after it has changed something.

## Main definitions

* `Discipline.Items` : the items of a list of a discipline.
* `Discipline.Primitives` : the primitive values and steps obey a discipline.
* `Discipline.ofHeap` : the discipline that asks something of heaps only.

## Main results

* `obeys_binary`, `obeys_updateInPlace` : operators.
* `obeys_sliceOf`, `obeys_setItem`, `obeys_deleteItem` : sequences.
-/

namespace NoteShell.Script

open NoteShell.Grammar NoteShell.Text

/-- The items of a list are values of a discipline, and there may be as many of them. -/
structure Discipline.Items (D : Discipline) (fits : Nat → Prop) (items : Array Value) : Prop where
  size : fits items.size
  values : ∀ v ∈ items, D.value v

/-- The primitive values and steps obey a discipline. Texts and lists may have as many items as
`fits` says, and the lists and dicts may be changed of which `mayChange` says so. A value that
stands for an operation that does not check the size of what it makes is one of the discipline only
where every size fits. -/
structure Discipline.Primitives (D : Discipline) (fits : Nat → Prop) (mayChange : Value → Prop) :
    Prop where
  smaller : ∀ {n m}, fits n → m ≤ n → fits m
  checked : ∀ {n}, n ≤ maxSequence → fits n
  number : ∀ {v : Value}, v.isNumber = true → D.value v
  none : D.value .none
  text : ∀ {s}, D.value (.str s) ↔ fits s.length
  range : ∀ r, D.value (.range r)
  type : ∀ t, D.value (.type t)
  builtin : ∀ {b}, D.value (.builtin b) → b.checksSize = false → ∀ n, fits n
  strMethod : ∀ {s m}, D.value (.strMethod s m) →
    fits s.length ∧ (m.checksSize = false → ∀ n, fits n)
  listMethod : ∀ {r m}, D.value (.listMethod r m) → D.value (.list r)
  dictMethod : ∀ {r m}, D.value (.dictMethod r m) →
    D.value (.dict r) ∧ (m.checksSize = false → ∀ n, fits n)
  key : ∀ {k}, D.key k ↔ fits k.length
  noEntries : D.entries []
  entry : ∀ {es e}, D.entries es → e ∈ es → D.key e.1 ∧ D.value e.2
  set : ∀ {es k v}, D.entries es → D.key k → D.value v → D.entries (es.set k v)
  erase : ∀ {es} k, D.entries es → D.entries (es.erase k)
  items : ∀ {h r}, D.heap h → D.value (.list r) → D.Items fits (h.items r)
  entries : ∀ {h r}, D.heap h → D.value (.dict r) → D.entries (h.entries r)
  newList : ∀ {h items}, D.heap h → D.Items fits items → (Effect.newList items).Obeys D h
  newDict : ∀ {h es}, D.heap h → D.entries es → (Effect.newDict es).Obeys D h
  updateList : ∀ {h r f}, D.heap h → mayChange (.list r) → D.value (.list r) →
    D.Items fits (f (h.items r)) → D.heap (h.updateList r f)
  updateDict : ∀ {h r f}, D.heap h → mayChange (.dict r) → D.value (.dict r) →
    D.entries (f (h.entries r)) → D.heap (h.updateDict r f)

/-- What an operator works on: if it is a list, then one of a discipline. -/
def Discipline.Operand (D : Discipline) (v : Value) : Prop :=
  ∀ r, v = .list r → D.value (.list r)

variable {D : Discipline} {fits : Nat → Prop} {mayChange : Value → Prop} {h : Heap} {v a b : Value}
  {items : Array Value}

theorem Discipline.operand_of_value (D : Discipline) (hv : D.value v) : D.Operand v := by
  rintro r rfl
  exact hv

section Primitives

variable (hD : D.Primitives fits mayChange)

include hD

/-! ### Primitive steps -/

theorem obeysAt_number (hh : D.heap h) (hv : v.isNumber = true) :
    (pure v : HeapOp).ObeysAt D D.value h :=
  HeapM.obeysAt_pure hh (hD.number hv)

theorem obeysAt_text (hh : D.heap h) {s : String} (hs : fits s.length) :
    (pure (.str s) : HeapOp).ObeysAt D D.value h :=
  HeapM.obeysAt_pure hh (hD.text.mpr hs)

theorem obeysAt_newList (hh : D.heap h) (hitems : D.Items fits items) :
    (HeapM.perform (.newList items)).ObeysAt D D.value h :=
  HeapM.obeysAt_perform (hD.newList hh hitems)

theorem obeysAt_changeList {r : ListRef} {f : Array Value → Array Value} (hh : D.heap h)
    (hchange : mayChange (.list r)) (hr : D.value (.list r)) (hf : D.Items fits (f (h.items r))) :
    (HeapM.updateList r f).ObeysAt D (fun _ => True) h :=
  HeapM.obeysAt_updateList (hD.updateList hh hchange hr hf)

theorem obeysAt_changeDict {r : DictRef} {f : Entries → Entries} (hh : D.heap h)
    (hchange : mayChange (.dict r)) (hr : D.value (.dict r)) (hf : D.entries (f (h.entries r))) :
    (HeapM.updateDict r f).ObeysAt D (fun _ => True) h :=
  HeapM.obeysAt_updateDict (hD.updateDict hh hchange hr hf)

/-! ### Items -/

theorem items_empty : D.Items fits #[] := ⟨hD.checked (Nat.zero_le _), by simp⟩

theorem items_append {xs ys : Array Value} (hxs : ∀ v ∈ xs, D.value v) (hys : ∀ v ∈ ys, D.value v)
    (hle : xs.size + ys.size ≤ maxSequence) : D.Items fits (xs ++ ys) := by
  refine ⟨hD.checked (by rwa [Array.size_append]), fun v hv => ?_⟩
  rcases Array.mem_append.mp hv with hv | hv
  · exact hxs v hv
  · exact hys v hv

/-- A list without an item. -/
theorem items_removeAt (hitems : D.Items fits items) (n : Nat) :
    D.Items fits (removeAt items n) :=
  ⟨hD.smaller hitems.size (size_removeAt_le items n),
    fun v hv => hitems.values v (mem_of_mem_removeAt hv)⟩

theorem value_singleton (c : Char) : D.value (.str (String.singleton c)) :=
  hD.text.mpr (hD.checked (by rw [String.length_singleton]; decide))

/-- The items of a value of a discipline are values of the discipline. -/
theorem value_itemsOf (hh : D.heap h) (hv : D.value v) :
    Ensures (fun items => ∀ x ∈ items, D.value x) (itemsOf h v) := by
  cases v with
  | list r => exact ensures_ok (hD.items hh hv).values
  | dict r =>
    refine ensures_ok fun x hx => ?_
    obtain ⟨e, he, rfl⟩ := List.mem_map.mp (List.mem_toArray.mp hx)
    exact hD.text.mpr (hD.key.mp (hD.entry (hD.entries hh hv) he).1)
  | str s =>
    refine ensures_ok fun x hx => ?_
    obtain ⟨c, -, rfl⟩ := List.mem_map.mp (List.mem_toArray.mp hx)
    exact value_singleton hD c
  | range r =>
    refine .after fun terms => ensures_ok fun x hx => ?_
    obtain ⟨i, -, rfl⟩ := List.mem_map.mp (List.mem_toArray.mp hx)
    exact hD.number rfl
  | _ => exact ensures_error

/-- The item at an index is a value of the discipline. -/
theorem value_getItem (hh : D.heap h) (shown : Value → String) {container : Value}
    (hcontainer : D.value container) (index : Value) :
    Ensures D.value (getItem h shown container index) := by
  cases container with
  | list r =>
    refine .after fun i => ensures_orIndexError fun v hv => ?_
    obtain ⟨n, -, hn⟩ := Option.bind_eq_some_iff.mp hv
    exact (hD.items hh hcontainer).values v (Array.mem_of_getElem? hn)
  | str s => exact .after fun i => .after fun c => ensures_ok (value_singleton hD c)
  | dict r =>
    cases index with
    | str key =>
      dsimp only [getItem]
      split
      · next v hv =>
        exact ensures_ok (hD.entry (hD.entries hh hcontainer) (Entries.mem_of_get? hv)).2
      · exact ensures_error
    | _ => exact ensures_error
  | range r =>
    exact .after fun i => .after fun n => .after fun n => ensures_ok (hD.number rfl)
  | _ => exact ensures_error

/-- A part is no longer than the whole. -/
theorem obeys_partOf {container : Value} (hcontainer : D.value container) (first last : Nat) :
    (partOf container first last).Obeys D D.value := by
  intro h hh
  cases container with
  | str s =>
    exact obeysAt_text hD hh (hD.smaller (hD.text.mp hcontainer) (length_slice_le s _ _))
  | list r =>
    have hitems := hD.items hh hcontainer
    refine HeapM.obeysAt_get (obeysAt_newList hD hh ⟨hD.smaller hitems.size ?_, fun v hv => ?_⟩)
    · rw [Array.size_extract]
      omega
    · obtain ⟨k, hk, rfl⟩ := Array.mem_extract_iff_getElem.mp hv
      exact hitems.values _ (Array.getElem_mem _)
  | range r => exact HeapM.obeysAt_pure hh (hD.range _)
  | _ => exact HeapM.obeysAt_pure hh hD.none

theorem obeys_sliceOf {container : Value} (hcontainer : D.value container)
    (start stop : Option Value) : (sliceOf container start stop).Obeys D D.value :=
  fun h hh => HeapM.obeysAt_get (.after hh fun _ => .after hh fun first => .after hh fun _ =>
    obeys_partOf hD hcontainer first _ h hh)

theorem key_dictKey {key : Value} (hkey : D.value key) : Ensures D.key (dictKey key) := by
  cases key with
  | str s => exact ensures_ok (hD.key.mpr (hD.text.mp hkey))
  | _ => exact ensures_error

theorem obeys_setItem {container index : Value} (hchange : mayChange container)
    (hcontainer : D.value container) (hindex : D.value index) (hv : D.value v) :
    (setItem container index v).Obeys D fun _ => True := by
  intro h hh
  refine HeapM.obeysAt_get ?_
  cases container with
  | list r =>
    have hitems := hD.items hh hcontainer
    refine .after hh fun i => .after hh fun n =>
      obeysAt_changeList hD hh hchange hcontainer ⟨?_, fun x hx => ?_⟩
    · rw [Array.size_setIfInBounds]
      exact hitems.size
    · rcases Array.mem_or_eq_of_mem_setIfInBounds hx with hx | rfl
      · exact hitems.values x hx
      · exact hv
  | dict r =>
    exact .check hh (key_dictKey hD hindex) fun key hkey =>
      obeysAt_changeDict hD hh hchange hcontainer (hD.set (hD.entries hh hcontainer) hkey hv)
  | _ => exact HeapM.obeysAt_fail hh

theorem obeys_deleteItem {container : Value} (hchange : mayChange container)
    (hcontainer : D.value container) (index : Value) :
    (deleteItem container index).Obeys D fun _ => True := by
  intro h hh
  refine HeapM.obeysAt_get ?_
  cases container with
  | list r =>
    exact .after hh fun i => .after hh fun n => obeysAt_changeList hD hh hchange hcontainer
      (items_removeAt hD (hD.items hh hcontainer) n)
  | dict r =>
    dsimp only
    split
    · next key _ =>
      exact obeysAt_changeDict hD hh hchange hcontainer (hD.erase key (hD.entries hh hcontainer))
    · exact .ask hh ensures_true fun shown _ => HeapM.obeysAt_fail hh
  | _ => exact HeapM.obeysAt_fail hh

/-! ### Operators -/

/-- The length of a product is checked. -/
theorem text_repeatedText (s : String) (n : Int64) : Ensures D.value (repeatedText s n) := by
  refine (ensures_repeatCount n _).bind fun count hcount =>
    ensures_ok (hD.text.mpr (hD.checked (Nat.le_trans ?_ hcount)))
  split
  · exact Nat.zero_le _
  · rw [length_repeatText]
    exact Nat.le_trans (Nat.le_of_eq (Nat.zero_add _))
      (Nat.mul_le_mul_right _ (length_le_utf8ByteSize s))

theorem obeysAt_repeatedList (hh : D.heap h) {r : ListRef} (hr : D.value (.list r)) (n : Int64) :
    (repeatedList r n).ObeysAt D D.value h := by
  refine HeapM.obeysAt_get (.check hh (ensures_repeatCount n _) fun count hcount =>
    obeysAt_newList hD hh ?_)
  split
  · exact items_empty hD
  · refine ⟨hD.checked (Nat.le_trans (Nat.le_of_eq ?_) hcount), fun v hv => ?_⟩
    · simp [Nat.mul_comm]
    · obtain ⟨items, hitems, hv⟩ := Array.mem_flatten.mp hv
      rw [(Array.mem_replicate.mp hitems).2] at hv
      exact (hD.items hh hr).values v hv

/-- The lengths of sums and products are checked. -/
theorem obeys_sequenceBinary (op : BinaryOp) (ha : D.Operand a) (hb : D.Operand b) :
    (sequenceBinary op a b).Obeys D D.value := by
  intro h hh
  unfold sequenceBinary
  split
  · next x y =>
    refine .check hh (ensures_checkLength _) fun _ hle =>
      obeysAt_text hD hh (hD.checked (Nat.le_trans ?_ hle))
    rw [String.length_append]
    exact Nat.add_le_add (length_le_utf8ByteSize x) (length_le_utf8ByteSize y)
  · exact HeapM.obeysAt_fail hh
  · next r s =>
    refine HeapM.obeysAt_get (.check hh (ensures_checkLength _) fun _ hle =>
      obeysAt_newList hD hh ?_)
    exact items_append hD (hD.items hh (ha r rfl)).values (hD.items hh (hb s rfl)).values hle
  · exact HeapM.obeysAt_fail hh
  · split
    · exact HeapM.obeysAt_result hh (text_repeatedText hD _ _)
    · exact HeapM.obeysAt_result hh (text_repeatedText hD _ _)
    · exact obeysAt_repeatedList hD hh (ha _ rfl) _
    · exact obeysAt_repeatedList hD hh (hb _ rfl) _
    · exact HeapM.obeysAt_fail hh
  · exact HeapM.obeysAt_fail hh

theorem obeys_binary (op : BinaryOp) (ha : D.Operand a) (hb : D.Operand b) :
    (binary op a b).Obeys D D.value := by
  intro h hh
  unfold binary
  split
  · next result hresult =>
    exact HeapM.obeysAt_result hh
      ((givesNumber_numberBinary hresult).mono fun _ => hD.number)
  · exact obeys_sequenceBinary hD op ha hb h hh

theorem value_unary (op : UnaryOp) (v : Value) (h : Heap) : Ensures D.value (unary op v h) := by
  cases op with
  | not => exact ensures_ok (hD.number rfl)
  | negate | plus => exact (givesNumber_signed _ v).mono fun _ => hD.number

/-- A list that is extended in place holds the items of the other value as well, and its length is
checked. -/
theorem obeys_updateInPlace (op : BinaryOp) {current value : Value} (hchange : mayChange current)
    (hcurrent : D.Operand current) (hvalue : D.value value) :
    (updateInPlace op current value).Obeys D D.value := by
  intro h hh
  unfold updateInPlace
  split
  · next r =>
    have hr := hcurrent r rfl
    refine HeapM.obeysAt_get (.check hh (value_itemsOf hD hh hvalue) fun extra hextra => ?_)
    refine .check hh (ensures_checkLength _) fun _ hle => ?_
    refine HeapM.ObeysAt.andReturn (A := fun _ => True) ?_ fun _ _ => hr
    exact obeysAt_changeList hD hh hchange hr (items_append hD (hD.items hh hr).values hextra hle)
  · exact obeys_binary hD _ hcurrent (D.operand_of_value hvalue) h hh

end Primitives

/-! ### Properties of heaps -/

/-- The discipline of programs whose heaps have a property. Nothing else is asked of them. -/
def Discipline.ofHeap (heap : Heap → Prop) : Discipline where
  value _ := True
  key _ := True
  entries _ := True
  heap := heap
  means _ _ := True
  expr _ := True
  stmt _ := True
  runsOut := True

/-- Primitive steps keep a property of heaps if new lists and dicts keep it, and the changes that
may be made. -/
theorem Discipline.primitives_ofHeap {heap : Heap → Prop} {mayChange : Value → Prop}
    (hnewList : ∀ {h : Heap} items, heap h → heap (h.newList items).2)
    (hnewDict : ∀ {h : Heap} es, heap h → heap (h.newDict es).2)
    (hupdateList : ∀ {h : Heap} {r} f, mayChange (.list r) → heap h → heap (h.updateList r f))
    (hupdateDict : ∀ {h : Heap} {r} f, mayChange (.dict r) → heap h → heap (h.updateDict r f)) :
    (Discipline.ofHeap heap).Primitives (fun _ => True) mayChange where
  smaller _ _ := trivial
  checked _ := trivial
  number _ := trivial
  none := trivial
  text := Iff.rfl
  range _ := trivial
  type _ := trivial
  builtin _ _ _ := trivial
  strMethod _ := ⟨trivial, fun _ _ => trivial⟩
  listMethod _ := trivial
  dictMethod _ := ⟨trivial, fun _ _ => trivial⟩
  key := Iff.rfl
  noEntries := trivial
  entry _ _ := ⟨trivial, trivial⟩
  set _ _ _ := trivial
  erase _ _ := trivial
  items _ _ := ⟨trivial, fun _ _ => trivial⟩
  entries _ _ := trivial
  newList hh _ := ⟨trivial, hnewList _ hh⟩
  newDict hh _ := ⟨trivial, hnewDict _ hh⟩
  updateList hh hchange _ _ := hupdateList _ hchange hh
  updateDict hh hchange _ _ := hupdateDict _ hchange hh

end NoteShell.Script
