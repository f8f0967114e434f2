import NoteShell.Proofs.Json.Members
import NoteShell.Proofs.Values.Display
import NoteShell.Script.JsonForm

/-!
# Values and documents

A value that stands for a tree is written as a document, in which the dicts of the tree have become
objects with their keys in order. The value of a document stands for a tree that is written as this
document again.

## Main definitions

* `Json.Passable` : documents that a skill receives as they are.
* `Data.json` : the document that a tree is written as.
* `Rebuilds` : the value of a document stands for a tree of the document.

## Main results

* `toJson_of_dataWithin` : a value that stands for a tree is written as the document of the tree.
* `rebuilds_of_passable` : the values of documents that can be passed to a skill.
-/

namespace NoteShell

/-- Documents that a skill receives as they are: their numbers are integers of 64 bits, the members
of their objects stand in the order of their keys, each key once, and at most `levels` arrays and
objects stand inside each other. -/
inductive Json.Passable : (levels : Nat) → Json → Prop
  | null (n : Nat) : Passable n .null
  | bool (n : Nat) (b : Bool) : Passable n (.bool b)
  | int (n : Nat) (i : Int) (hlow : Decimal.leastInt64 ≤ i) (hhigh : i ≤ Decimal.greatestInt64) :
    Passable n (.int i)
  | str (n : Nat) (s : String) : Passable n (.str s)
  | arr (n : Nat) (items : List Json) (hitems : ∀ j ∈ items, Passable n j) :
    Passable (n + 1) (.arr items)
  | obj (n : Nat) (members : Members) (horder : (members.map (·.1)).Pairwise (· < ·))
    (hvalues : ∀ m ∈ members, Passable n m.2) : Passable (n + 1) (.obj members)

namespace Script

open NoteShell.Decimal

/-! ### The document of a tree -/

mutual

/-- The document that a tree is written as. -/
def Data.json : Data → Json
  | .none => .null
  | .bool b => .bool b
  | .int i => .int i.toInt
  | .str s => .str s
  | .list items => .arr (itemDocuments items)
  | .dict entries => .object (entryDocuments entries)

/-- The documents of several trees. -/
def itemDocuments : List Data → List Json
  | [] => []
  | item :: rest => item.json :: itemDocuments rest

/-- The documents of the values of a dict, with their keys. -/
def entryDocuments : List (String × Data) → List (String × Json)
  | [] => []
  | (key, value) :: rest => (key, value.json) :: entryDocuments rest

end

theorem itemDocuments_eq_map (items : List Data) : itemDocuments items = items.map Data.json := by
  induction items with
  | nil => rfl
  | cons item rest ih => rw [itemDocuments, ih, List.map_cons]

theorem entryDocuments_eq_map (entries : List (String × Data)) :
    entryDocuments entries = entries.map fun p => (p.1, p.2.json) := by
  induction entries with
  | nil => rfl
  | cons p rest ih => rw [entryDocuments, ih, List.map_cons]

theorem mem_entryDocuments {entries : List (String × Data)} {m : String × Json} :
    m ∈ entryDocuments entries ↔ ∃ p ∈ entries, (p.1, p.2.json) = m := by
  rw [entryDocuments_eq_map, List.mem_map]

theorem keys_entryDocuments (entries : List (String × Data)) :
    (entryDocuments entries).map (·.1) = entries.map (·.1) := by
  rw [entryDocuments_eq_map, List.map_map]
  rfl

/-- Trees whose dicts have distinct keys. -/
inductive Data.DistinctKeys : Data → Prop
  | none : DistinctKeys .none
  | bool (b : Bool) : DistinctKeys (.bool b)
  | int (i : Int64) : DistinctKeys (.int i)
  | str (s : String) : DistinctKeys (.str s)
  | list (items : List Data) (hitems : ∀ d ∈ items, DistinctKeys d) : DistinctKeys (.list items)
  | dict (entries : List (String × Data)) (hkeys : (entries.map (·.1)).Nodup)
    (hvalues : ∀ p ∈ entries, DistinctKeys p.2) : DistinctKeys (.dict entries)

variable {h h' : Heap} {n m : Nat} {v v' : Value} {d d' : Data}
  {openLists : List ListRef} {openDicts : List DictRef}

theorem passable_of_dataWithin (hd : dataWithin h n v = some d) : d.json.Passable n := by
  refine dataWithin_induction (motive := fun n _ d => d.json.Passable n)
    ?none ?bool ?int ?str ?list ?dict hd
  case none => exact fun n => .null n
  case bool => exact fun n b => .bool n b
  case int =>
    intro n i
    have hlow := i.le_toInt
    have hhigh := i.toInt_lt
    exact .int n _ (by rw [leastInt64]; omega) (by rw [greatestInt64]; omega)
  case str => exact fun n s => .str n s
  case list =>
    intro n r values items _ _ ih
    rw [Data.json, itemDocuments_eq_map]
    exact .arr n _ (List.forall_mem_map.mpr (forall_mem_right ih fun _ _ hj => hj))
  case dict =>
    intro n r entries data _ _ ih
    refine .obj n _ (Json.pairwise_membersOf _) fun m hm => ?_
    have hmem := Json.mem_of_mem_membersOf hm
    obtain ⟨p, hp, rfl⟩ := mem_entryDocuments.mp hmem
    exact forall_mem_right ih (fun _ _ hj => hj.2) p hp

/-! ### Writing a value as a document -/

theorem collect_of_forall₂ {α β : Type} {f : α → Except EvalError β} {xs : List α} {ys : List β}
    (hxs : List.Forall₂ (fun x y => f x = .ok y) xs ys) (acc : List β) :
    collect f acc xs = .ok (acc.reverse ++ ys) := by
  induction hxs generalizing acc with
  | nil => rw [collect, List.append_nil]
  | @cons x y xs ys hxy _ ih =>
    simp only [collect, hxy, ih, List.reverse_cons, List.append_assoc, List.singleton_append]

/-- The document of a value inside open containers is that of the tree which the value stands for.
No container is met again inside itself, since its parts are smaller trees. -/
theorem jsonWithin_of_dataWithin (hd : dataWithin h n v = some d) :
    ∀ openLists openDicts, Inside h openLists openDicts d →
      jsonWithin h n openLists openDicts v = .ok d.json := by
  refine dataWithin_induction (motive := fun n v d => ∀ openLists openDicts,
    Inside h openLists openDicts d → jsonWithin h n openLists openDicts v = .ok d.json)
    ?none ?bool ?int ?str ?list ?dict hd
  case list =>
    intro n r values items hr hitems ih openLists openDicts hin
    have hdata : dataWithin h (n + 1) (.list r) = some (.list items) :=
      dataWithin_list.mpr ⟨values, items, hr, rfl, hitems⟩
    have hparts : List.Forall₂ (fun v j => jsonWithin h n (r :: openLists) openDicts v = .ok j)
        values.toList (items.map Data.json) := by
      rw [List.forall₂_map_right_iff]
      exact (forall₂_and_mem ih fun d hd => hin.item hdata hd).imp fun v d hvd => hvd.1 _ _ hvd.2
    simp only [jsonWithin, List.contains_iff_mem, hin.not_mem_lists hdata, if_false,
      Heap.items_eq hr, collect_of_forall₂ hparts []]
    rw [Data.json, itemDocuments_eq_map]
    rfl
  case dict =>
    intro n r entries data hr hentries ih openLists openDicts hin
    have hdata : dataWithin h (n + 1) (.dict r) = some (.dict data) :=
      dataWithin_dict.mpr ⟨entries, data, hr, rfl, hentries⟩
    have hparts : List.Forall₂ (fun e m =>
        (jsonWithin h n openLists (r :: openDicts) e.2).map (e.1, ·) = .ok m)
        entries (data.map fun p => (p.1, p.2.json)) := by
      rw [List.forall₂_map_right_iff]
      refine (forall₂_and_mem ih fun p hp => hin.value hdata hp).imp fun e p hep => ?_
      rw [hep.1.2 _ _ hep.2, hep.1.1]
      rfl
    simp only [jsonWithin, List.contains_iff_mem, hin.not_mem_dicts hdata, if_false,
      Heap.entries_eq hr, collect_of_forall₂ hparts []]
    rw [Data.json, entryDocuments_eq_map]
    rfl
  all_goals
    intros
    rw [jsonWithin]
    · rfl
    · simp
    · simp

/-- A value that stands for a tree of at most 128 nested containers is written as the document of
the tree. -/
theorem toJson_of_dataWithin (hn : n ≤ maxSkillNesting) (hd : dataWithin h n v = some d) :
    toJson h v = .ok d.json :=
  jsonWithin_of_dataWithin (dataWithin_mono (.refl h) hn hd) [] [] ⟨by simp, by simp⟩

/-! ### The value of a document -/

/-- The value of a document stands for a tree that is written as the document. Everything that was
in the heap before is left alone. -/
def Rebuilds (n : Nat) (j : Json) : Prop :=
  ∀ h, h.Extends (ofJson h j).2 ∧ ∃ d, dataWithin (ofJson h j).2 n (ofJson h j).1 = some d ∧
    d.DistinctKeys ∧ d.json = j

theorem ofJson_arr (h : Heap) (items : List Json) :
    ofJson h (.arr items) = (ofJsonItems h items).2.newList (ofJsonItems h items).1.toArray := by
  rw [ofJson]

theorem ofJson_obj (h : Heap) (members : Json.Members) :
    ofJson h (.obj members) = (ofJsonMembers h members).2.newDict (ofJsonMembers h members).1 := by
  rw [ofJson]

theorem rebuilds_items {items : List Json} (hitems : ∀ j ∈ items, Rebuilds n j) (h : Heap) :
    h.Extends (ofJsonItems h items).2 ∧ ∃ ds,
      List.Forall₂ (fun v d => dataWithin (ofJsonItems h items).2 n v = some d)
        (ofJsonItems h items).1 ds ∧ (∀ d ∈ ds, d.DistinctKeys) ∧ ds.map Data.json = items := by
  induction items generalizing h with
  | nil => exact ⟨.refl h, [], .nil, by simp, rfl⟩
  | cons item items ih =>
    rw [List.forall_mem_cons] at hitems
    obtain ⟨hext, d, hd, hkeys, rfl⟩ := hitems.1 h
    obtain ⟨hext', ds, hds, hkeys', rfl⟩ := ih hitems.2 (ofJson h d.json).2
    exact ⟨hext.trans hext', d :: ds, .cons (dataWithin_mono hext' (Nat.le_refl n) hd) hds,
      List.forall_mem_cons.mpr ⟨hkeys, hkeys'⟩, rfl⟩

theorem rebuilds_members {members : Json.Members} (hmembers : ∀ m ∈ members, Rebuilds n m.2)
    (h : Heap) :
    h.Extends (ofJsonMembers h members).2 ∧ ∃ ds,
      SameKeys (fun v d => dataWithin (ofJsonMembers h members).2 n v = some d)
        (ofJsonMembers h members).1 ds ∧ (∀ p ∈ ds, p.2.DistinctKeys) ∧
        entryDocuments ds = members := by
  induction members generalizing h with
  | nil => exact ⟨.refl h, [], .nil, by simp, rfl⟩
  | cons member members ih =>
    obtain ⟨key, item⟩ := member
    rw [List.forall_mem_cons] at hmembers
    obtain ⟨hext, d, hd, hkeys, rfl⟩ := hmembers.1 h
    obtain ⟨hext', ds, hds, hkeys', rfl⟩ := ih hmembers.2 (ofJson h d.json).2
    exact ⟨hext.trans hext', (key, d) :: ds,
      .cons ⟨rfl, dataWithin_mono hext' (Nat.le_refl n) hd⟩ hds,
      List.forall_mem_cons.mpr ⟨hkeys, hkeys'⟩, rfl⟩

/-- The value of a document that can be passed to a skill stands for the tree of the document. -/
theorem rebuilds_of_passable {j : Json} (hj : j.Passable n) : Rebuilds n j := by
  induction hj with
  | null n => exact fun h => ⟨.refl h, .none, by rw [ofJson, dataWithin], .none, rfl⟩
  | bool n b => exact fun h => ⟨.refl h, .bool b, by rw [ofJson, dataWithin], .bool b, rfl⟩
  | int n i hlow hhigh =>
    intro h
    have hword : int64? i = some (Int64.ofInt i) := if_pos ⟨hlow, hhigh⟩
    have hmade : ofJson h (.int i) = (.int (Int64.ofInt i), h) := by rw [ofJson, hword]
    rw [hmade]
    refine ⟨.refl h, .int (Int64.ofInt i), by rw [dataWithin], .int _, ?_⟩
    rw [leastInt64] at hlow
    rw [greatestInt64] at hhigh
    rw [Data.json, Int64.toInt_ofInt_of_le (by omega) (by omega)]
  | str n s => exact fun h => ⟨.refl h, .str s, by rw [ofJson, dataWithin], .str s, rfl⟩
  | arr n items _ ih =>
    intro h
    obtain ⟨hext, ds, hds, hkeys, hdocuments⟩ := rebuilds_items ih h
    have hnew := (ofJsonItems h items).2.extends_newList (ofJsonItems h items).1.toArray
    rw [ofJson_arr]
    refine ⟨hext.trans hnew, .list ds,
      dataWithin_list.mpr ⟨(ofJsonItems h items).1.toArray, ds, ?_, rfl, ?_⟩, .list ds hkeys, ?_⟩
    · simp [Heap.newList]
    · exact hds.imp fun v d hd => dataWithin_mono hnew (Nat.le_refl n) hd
    · rw [Data.json, itemDocuments_eq_map, hdocuments]
  | obj n members horder _ ih =>
    intro h
    obtain ⟨hext, ds, hds, hkeys, rfl⟩ := rebuilds_members ih h
    have hnew := (ofJsonMembers h (entryDocuments ds)).2.extends_newDict
      (ofJsonMembers h (entryDocuments ds)).1
    rw [ofJson_obj]
    refine ⟨hext.trans hnew, .dict ds,
      dataWithin_dict.mpr ⟨(ofJsonMembers h (entryDocuments ds)).1, ds, ?_, rfl, ?_⟩,
      .dict ds ?_ hkeys, ?_⟩
    · simp [Heap.newDict]
    · exact hds.imp fun e p hp => ⟨hp.1, dataWithin_mono hnew (Nat.le_refl n) hp.2⟩
    · rw [← keys_entryDocuments]
      exact Json.nodup_of_pairwise horder
    · rw [Data.json, Json.object, Json.membersOf_of_pairwise horder]

end Script

end NoteShell
