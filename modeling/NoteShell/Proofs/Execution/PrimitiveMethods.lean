import NoteShell.Proofs.Execution.Primitives
import NoteShell.Proofs.Values.Methods
import NoteShell.Script.Call

/-!
# Methods from primitive steps

Methods of texts, lists and dicts obey every discipline that the primitive values and steps obey.
Methods of lists and dicts change no list and no dict but their own. Setting the entries of one dict
in another is a loop of steps that could each fail, but none of them does, because the keys are
texts.

## Main results

* `methodOf_eq_ok` : what has methods.
* `obeys_callStrMethod`, `obeys_callListMethod`, `obeys_callDictMethod` : methods.
-/

namespace NoteShell.Script

open NoteShell.Text

/-- Only texts, lists and dicts have methods. -/
theorem methodOf_eq_ok {v m : Value} {name : String} (h : methodOf v name = .ok m) :
    (∃ s method, v = .str s ∧ StrMethod.ofName? name = some method ∧ m = .strMethod s method) ∨
      (∃ r method, v = .list r ∧ ListMethod.ofName? name = some method ∧ m = .listMethod r method) ∨
      ∃ r method, v = .dict r ∧ DictMethod.ofName? name = some method ∧
        m = .dictMethod r method := by
  unfold methodOf at h
  dsimp only at h
  split at h
  · next found hfound =>
    cases h
    cases v with
    | str s =>
      obtain ⟨method, hmethod, rfl⟩ := Option.map_eq_some_iff.mp hfound
      exact .inl ⟨s, method, rfl, hmethod, rfl⟩
    | list r =>
      obtain ⟨method, hmethod, rfl⟩ := Option.map_eq_some_iff.mp hfound
      exact .inr (.inl ⟨r, method, rfl, hmethod, rfl⟩)
    | dict r =>
      obtain ⟨method, hmethod, rfl⟩ := Option.map_eq_some_iff.mp hfound
      exact .inr (.inr ⟨r, method, rfl, hmethod, rfl⟩)
    | _ => cases hfound
  · cases h

variable {D : Discipline} {fits : Nat → Prop} {mayChange : Value → Prop} {h : Heap} {v : Value}
  {args : CallArgs} {items : Array Value} {es : Entries}

section Primitives

variable (hD : D.Primitives fits mayChange)

include hD

/-! ### Methods of texts -/

theorem obeys_callStrMethod {s : String} {m : StrMethod} (hm : D.value (.strMethod s m))
    (args : CallArgs) : (callStrMethod s m args).Obeys D D.value := by
  intro h hh
  obtain ⟨hs, hunchecked⟩ := hD.strMethod hm
  have htext {t : String} (ht : t.length ≤ s.length) :
      (pure (.str t) : HeapOp).ObeysAt D D.value h :=
    obeysAt_text hD hh (hD.smaller hs ht)
  cases m with
  | upper | lower =>
    exact .after hh fun _ => .after hh fun _ => obeysAt_text hD hh (hunchecked rfl _)
  | strip =>
    exact .after hh fun _ => .after hh fun _ => .after hh fun p => htext (length_trimWhile_le p s)
  | lstrip =>
    exact .after hh fun _ => .after hh fun _ => .after hh fun p =>
      htext (length_trimStartWhile_le p s)
  | rstrip =>
    exact .after hh fun _ => .after hh fun _ => .after hh fun p =>
      htext (length_trimEndWhile_le p s)
  | split =>
    refine .after hh fun _ => .after hh fun _ => .after hh fun pieces =>
      obeysAt_newList hD hh ⟨hunchecked rfl _, fun v hv => ?_⟩
    obtain ⟨piece, -, rfl⟩ := List.mem_map.mp (List.mem_toArray.mp hv)
    exact hD.text.mpr (hunchecked rfl _)
  | join =>
    refine .after hh fun _ => .after hh fun _ => HeapM.obeysAt_get (.after hh fun items => ?_)
    exact .check hh (ensures_joinTexts s items) fun t ht => obeysAt_text hD hh (hD.checked ht)
  | replace =>
    refine .after hh fun _ => .after hh fun _ => .after hh fun old => .after hh fun new => ?_
    exact .check hh (ensures_replaceText s old new) fun t ht => obeysAt_text hD hh (hD.checked ht)
  | startsWith | endsWith | count =>
    exact .after hh fun _ => .after hh fun _ => .after hh fun _ => obeysAt_number hD hh rfl
  | find =>
    refine .after hh fun _ => .after hh fun _ => .after hh fun needle => ?_
    split <;> exact obeysAt_number hD hh rfl

/-! ### Methods of lists -/

omit hD in
theorem value_sortValues (sorter : Sorter) (hitems : ∀ v ∈ items, D.value v) (h : Heap)
    (reverse : Bool) :
    Ensures (fun sorted => ∀ v ∈ sorted, D.value v) (sortValues sorter h reverse items) :=
  (ensures_sortValues sorter h reverse items).mono fun _ hperm v hv =>
    hitems v (Array.mem_toList_iff.mp (hperm.mem_iff.mp (Array.mem_toList_iff.mpr hv)))

/-- A list with the same items in another order. -/
theorem items_perm {sorted : Array Value} (hitems : D.Items fits items)
    (hperm : sorted.toList.Perm items.toList) : D.Items fits sorted := by
  refine ⟨hD.smaller hitems.size (Nat.le_of_eq hperm.length_eq), fun v hv => hitems.values v ?_⟩
  exact Array.mem_toList_iff.mp (hperm.mem_iff.mp (Array.mem_toList_iff.mpr hv))

theorem obeys_callListMethod (sorter : Sorter) {r : ListRef} (hchange : mayChange (.list r))
    (hr : D.value (.list r)) (m : ListMethod) (hargs : args.Obeys D) :
    (callListMethod sorter r m args).Obeys D D.value := by
  intro h hh
  have hitems := hD.items hh hr
  have hchanges (f : Array Value → Array Value) {v : Value} (hf : D.Items fits (f (h.items r)))
      (hv : D.value v) : (HeapM.updateList r f >>= fun _ => pure v : HeapOp).ObeysAt D D.value h :=
    (obeysAt_changeList hD hh hchange hr hf).andReturn fun _ _ => hv
  refine .after hh fun _ => HeapM.obeysAt_get ?_
  cases m with
  | append =>
    refine .after hh fun _ => .check hh (ensures_checkLength _) fun _ hle =>
      hchanges _ ⟨?_, ?_⟩ hD.none
    · exact hD.checked (by rwa [Array.size_push])
    · exact Heap.Sound.forall_mem_push hitems.values (hargs.first hD.none)
  | extend =>
    refine .after hh fun _ =>
      .check hh (value_itemsOf hD hh (hargs.first hD.none)) fun extra hextra => ?_
    refine .check hh (ensures_checkLength _) fun _ hle => ?_
    exact hchanges (· ++ extra) (items_append hD hitems.values hextra hle) hD.none
  | insert =>
    refine .after hh fun _ => .after hh fun i => .check hh (ensures_checkLength _) fun _ hle =>
      hchanges _ ⟨hD.checked (by rwa [size_insertAt]), fun w hw => ?_⟩ hD.none
    rcases mem_of_mem_insertAt hw with rfl | hw
    · exact hargs.second hD.none
    · exact hitems.values w hw
  | pop =>
    have hremove (n : Nat) := hchanges (removeAt · n) (items_removeAt hD hitems n)
      (Heap.Sound.getD_of_forall_mem hitems.values hD.none n)
    refine .after hh fun _ => ?_
    dsimp only
    split
    · exact HeapM.obeysAt_fail_bind hh
    · split
      · exact .after hh fun i => .after hh fun n => hremove n
      · exact .after hh fun n => hremove n
  | remove =>
    refine .after hh fun _ => .ask hh ensures_true fun found _ => ?_
    split
    · exact hchanges _ (items_removeAt hD hitems _) hD.none
    · exact HeapM.obeysAt_fail hh
  | index =>
    refine .after hh fun _ => .ask hh ensures_true fun found _ => ?_
    split
    · exact obeysAt_number hD hh rfl
    · exact HeapM.obeysAt_fail hh
  | count =>
    exact .after hh fun _ => .ask hh ensures_true fun n _ => obeysAt_number hD hh rfl
  | clear => exact .after hh fun _ => hchanges _ (items_empty hD) hD.none
  | reverse =>
    refine .after hh fun _ => hchanges _ (items_perm hD hitems ?_) hD.none
    rw [Array.toList_reverse]
    exact List.reverse_perm _
  | sort =>
    exact .after hh fun _ => .ask hh (ensures_sortValues sorter h _ _) fun sorted hperm =>
      hchanges _ (items_perm hD hitems hperm) hD.none
  | copy => exact .after hh fun _ => obeysAt_newList hD hh hitems

/-! ### Methods of dicts -/

theorem value_lookUp (hes : D.entries es) {key : Value} (hv : lookUp es key = some v) :
    D.value v := by
  unfold lookUp at hv
  split at hv
  · exact (hD.entry hes (Entries.mem_of_get? hv)).2
  · cases hv

theorem value_keys (hes : D.entries es) :
    ∀ v ∈ (es.map fun e => Value.str e.1).toArray, D.value v := by
  intro v hv
  obtain ⟨e, he, rfl⟩ := List.mem_map.mp (List.mem_toArray.mp hv)
  exact hD.text.mpr (hD.key.mp (hD.entry hes he).1)

theorem value_values (hes : D.entries es) : ∀ v ∈ (es.map fun e => e.2).toArray, D.value v := by
  intro v hv
  obtain ⟨e, he, rfl⟩ := List.mem_map.mp (List.mem_toArray.mp hv)
  exact (hD.entry hes he).2

omit hD in
/-- Setting the entry of a text cannot fail. -/
theorem setItem_key (r : DictRef) (key : String) (v : Value) (h : Heap) :
    setItem (.dict r) (.str key) v h = (.ok (), h.updateDict r (Entries.set key v)) := rfl

/-- All entries of another dict are set one after the other, and none of these steps fails. -/
theorem exists_setEntries {r : DictRef} (hchange : mayChange (.dict r)) (hr : D.value (.dict r))
    {additions : Entries} (hadditions : ∀ e ∈ additions, D.key e.1 ∧ D.value e.2) (hh : D.heap h) :
    ∃ h', setEntries (.dict r) additions h = (.ok (), h') ∧ D.heap h' := by
  induction additions generalizing h with
  | nil => exact ⟨h, rfl, hh⟩
  | cons e additions ih =>
    rw [List.forall_mem_cons] at hadditions
    obtain ⟨⟨hkey, hv⟩, hrest⟩ := hadditions
    rw [setEntries, HeapM.bind_apply, setItem_key]
    exact ih hrest (hD.updateDict hh hchange hr (hD.set (hD.entries hh hr) hkey hv))

/-- Each entry becomes a list of two items. -/
theorem obeys_entryLists {acc : List Value} (hes : ∀ e ∈ es, D.key e.1 ∧ D.value e.2)
    (hacc : ∀ v ∈ acc, D.value v) (hh : D.heap h) :
    (∀ v ∈ (entryLists acc es h).1, D.value v) ∧ D.heap (entryLists acc es h).2 := by
  induction es generalizing acc h with
  | nil => exact ⟨fun v hv => hacc v (by simpa [entryLists] using hv), hh⟩
  | cons e es ih =>
    rw [List.forall_mem_cons] at hes
    have htwo : 2 ≤ maxSequence := by decide
    have hpair : D.Items fits #[.str e.1, e.2] :=
      ⟨hD.checked htwo, by simpa using ⟨hD.text.mpr (hD.key.mp hes.1.1), hes.1.2⟩⟩
    obtain ⟨hlist, hh'⟩ := hD.newList hh hpair
    exact ih hes.2 (List.forall_mem_cons.mpr ⟨hlist, hacc⟩) hh'

theorem obeys_callDictMethod {r : DictRef} {m : DictMethod} (hchange : mayChange (.dict r))
    (hm : D.value (.dictMethod r m)) (hargs : args.Obeys D) :
    (callDictMethod r m args).Obeys D D.value := by
  intro h hh
  obtain ⟨hr, hunchecked⟩ := hD.dictMethod hm
  have hentries := hD.entries hh hr
  have hchanges (f : Entries → Entries) {v : Value} (hf : D.entries (f (h.entries r)))
      (hv : D.value v) : (HeapM.updateDict r f >>= fun _ => pure v : HeapOp).ObeysAt D D.value h :=
    (obeysAt_changeDict hD hh hchange hr hf).andReturn fun _ _ => hv
  refine .after hh fun _ => HeapM.obeysAt_get ?_
  cases m with
  | get =>
    exact .after hh fun _ => HeapM.obeysAt_pure hh
      (value_getD (fun _ => value_lookUp hD hentries) (hargs.second hD.none))
  | keys =>
    exact .after hh fun _ => obeysAt_newList hD hh ⟨hunchecked rfl _, value_keys hD hentries⟩
  | values =>
    exact .after hh fun _ => obeysAt_newList hD hh ⟨hunchecked rfl _, value_values hD hentries⟩
  | items =>
    have hnil : ∀ v ∈ ([] : List Value), D.value v := by simp
    obtain ⟨hpairs, hh'⟩ := obeys_entryLists hD (fun _ => hD.entry hentries) hnil hh
    exact .after hh fun _ => HeapM.obeysAt_perform (hD.newList hh' ⟨hunchecked rfl _, hpairs⟩)
  | pop =>
    refine .after hh fun _ => ?_
    split
    · next v k hv _ => exact hchanges _ (hD.erase k hentries) (value_lookUp hD hentries hv)
    · split
      · next d hd => exact HeapM.obeysAt_pure hh (hargs.positional? hd)
      · exact HeapM.obeysAt_fail hh
  | update =>
    refine .after hh fun _ => ?_
    split
    · next s hs =>
      have hadditions := hD.entries hh (hs ▸ hargs.first hD.none)
      obtain ⟨h', hset, hh'⟩ := exists_setEntries hD hchange hr (fun _ => hD.entry hadditions) hh
      refine HeapM.obeysAt_of_ok ?_ hh' hD.none
      rw [HeapM.bind_apply, hset]
      rfl
    · exact HeapM.obeysAt_fail hh
  | clear => exact .after hh fun _ => hchanges _ hD.noEntries hD.none
  | copy => exact .after hh fun _ => HeapM.obeysAt_perform (hD.newDict hh hentries)

end Primitives

end NoteShell.Script
