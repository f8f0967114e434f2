import NoteShell.Proofs.Values.JsonForm
import NoteShell.Proofs.Values.Ordering
import NoteShell.Script.Call

/-!
# Data that skills receive

What a note shares reaches a skill unchanged when a program passes it on, and a value that a skill
receives can be made from the document again. Two values that are written as one document are equal,
since dicts are compared in any order.

## Main results

* `plainWithin_of_data` : a value that stands for a tree is plain.
* `equalValues_of_json` : values that are written as one document are equal.
* `json_round_trip` : documents come back from their values, and values from their documents.
-/

namespace NoteShell.Script

variable {h h' : Heap} {n m : Nat} {v v' : Value} {d d' : Data}

/-! ### Equality -/

theorem SameKeys.keys_eq {R : Value → Data → Prop} {entries : Entries}
    {data : List (String × Data)} (h : SameKeys R entries data) :
    entries.keys = data.map (·.1) := by
  induction h with
  | nil => rfl
  | cons hp _ ih => rw [Entries.keys_cons, List.map_cons, hp.1, ih]

/-- A value is one of those that a tree has items for. -/
theorem exists_right_of_mem {α β : Type} {R : α → β → Prop} {xs : List α} {ys : List β} {x : α}
    (h : List.Forall₂ R xs ys) (hx : x ∈ xs) : ∃ y ∈ ys, R x y := by
  obtain ⟨i, hi, rfl⟩ := List.getElem_of_mem hx
  have hi' : i < ys.length := h.length_eq ▸ hi
  exact ⟨ys[i], List.getElem_mem hi', h.get hi hi'⟩

theorem scalar_of_json (hd : dataWithin h n v = some d) :
    (d.json = .null → v = .none) ∧ (∀ b, d.json = .bool b → v = .bool b) ∧
      (∀ i : Int64, d.json = .int i.toInt → v = .int i) ∧ ∀ s, d.json = .str s → v = .str s := by
  refine dataWithin_induction (motive := fun _ v d =>
    (d.json = .null → v = .none) ∧ (∀ b, d.json = .bool b → v = .bool b) ∧
      (∀ i : Int64, d.json = .int i.toInt → v = .int i) ∧ ∀ s, d.json = .str s → v = .str s)
    ?none ?bool ?int ?str ?list ?dict hd
  case int =>
    intro n i
    simp [Data.json, Int64.toInt_inj]
  all_goals
    intros
    simp [Data.json, Json.object]

theorem list_of_json (hd : dataWithin h n v = some d) {items : List Json}
    (hjson : d.json = .arr items) :
    ∃ k r values ds, n = k + 1 ∧ v = .list r ∧ d = .list ds ∧ h.lists[r.index]? = some values ∧
      List.Forall₂ (fun v d => dataWithin h k v = some d) values.toList ds ∧
      ds.map Data.json = items := by
  revert hjson
  refine dataWithin_induction (motive := fun n v d => d.json = .arr items →
    ∃ k r values ds, n = k + 1 ∧ v = .list r ∧ d = .list ds ∧ h.lists[r.index]? = some values ∧
      List.Forall₂ (fun v d => dataWithin h k v = some d) values.toList ds ∧
      ds.map Data.json = items) ?none ?bool ?int ?str ?list ?dict hd
  case list =>
    intro n r values ds hr hds _ hjson
    rw [Data.json, itemDocuments_eq_map, Json.arr.injEq] at hjson
    exact ⟨n, r, values, ds, rfl, rfl, rfl, hr, hds, hjson⟩
  all_goals
    intros
    simp_all [Data.json, Json.object]

theorem dict_of_json (hd : dataWithin h n v = some d) {members : Json.Members}
    (hjson : d.json = .obj members) :
    ∃ k r entries ds, n = k + 1 ∧ v = .dict r ∧ d = .dict ds ∧ h.dicts[r.index]? = some entries ∧
      SameKeys (fun v d => dataWithin h k v = some d) entries ds ∧
      Json.membersOf (entryDocuments ds) = members := by
  revert hjson
  refine dataWithin_induction (motive := fun n v d => d.json = .obj members →
    ∃ k r entries ds, n = k + 1 ∧ v = .dict r ∧ d = .dict ds ∧ h.dicts[r.index]? = some entries ∧
      SameKeys (fun v d => dataWithin h k v = some d) entries ds ∧
      Json.membersOf (entryDocuments ds) = members) ?none ?bool ?int ?str ?list ?dict hd
  case dict =>
    intro n r entries ds hr hds _ hjson
    rw [Data.json, Json.object, Json.obj.injEq] at hjson
    exact ⟨n, r, entries, ds, rfl, rfl, rfl, hr, hds, hjson⟩
  all_goals
    intros
    simp_all [Data.json]

/-- Two relations to items that are written as the same documents. -/
theorem forall₂_of_map_eq {α β γ : Type} {R R' : α → β → Prop} {T : α → α → Prop} {f : β → γ}
    {xs xs' : List α} {ys ys' : List β} (h : List.Forall₂ R xs ys) (h' : List.Forall₂ R' xs' ys')
    (hmap : ys.map f = ys'.map f) (hT : ∀ x y x' y', R x y → R' x' y' → f y = f y' → T x x') :
    List.Forall₂ T xs xs' := by
  induction h generalizing xs' ys' with
  | nil =>
    obtain rfl := List.map_eq_nil_iff.mp hmap.symm
    cases h'
    exact .nil
  | cons hxy _ ih =>
    cases h' with
    | nil => simp at hmap
    | cons hxy' h' =>
      rw [List.map_cons, List.map_cons, List.cons.injEq] at hmap
      exact .cons (hT _ _ _ _ hxy hxy' hmap.1) (ih h' hmap.2)

/-- Values that stand for trees which are written as one document are found equal by a comparison
that sees all their levels. -/
theorem equalWithin_of_json (hd : dataWithin h n v = some d) : ∀ m v' d', n ≤ m →
    dataWithin h m v' = some d' → d.DistinctKeys → d'.DistinctKeys → d.json = d'.json →
      equalWithin h .none m v v' = some true := by
  refine dataWithin_induction (motive := fun n v d => ∀ m v' d', n ≤ m →
    dataWithin h m v' = some d' → d.DistinctKeys → d'.DistinctKeys → d.json = d'.json →
      equalWithin h .none m v v' = some true) ?none ?bool ?int ?str ?list ?dict hd
  case none =>
    intro n m v' d' _ hd' _ _ hjson
    rw [(scalar_of_json hd').1 hjson.symm, equalWithin_scalar (by simp) (by simp)]
    rfl
  case bool =>
    intro n b m v' d' _ hd' _ _ hjson
    rw [(scalar_of_json hd').2.1 b hjson.symm, equalWithin_scalar (by simp) (by simp)]
    cases b <;> rfl
  case int =>
    intro n i m v' d' _ hd' _ _ hjson
    rw [(scalar_of_json hd').2.2.1 i hjson.symm, equalWithin_scalar (by simp) (by simp)]
    simp [equalScalars, equalNumbers, Value.isNumber, Value.asInt?]
  case str =>
    intro n s m v' d' _ hd' _ _ hjson
    rw [(scalar_of_json hd').2.2.2 s hjson.symm, equalWithin_scalar (by simp) (by simp)]
    simp [equalScalars]
  case list =>
    intro n r values items hr _ ih m v' d' hle hd' hkeys hkeys' hjson
    rw [Data.json, itemDocuments_eq_map] at hjson
    obtain ⟨k, s, values', ds, rfl, rfl, rfl, hs, hds, hmap⟩ := list_of_json hd' hjson.symm
    cases hkeys with
    | list _ hitems =>
    cases hkeys' with
    | list _ hitems' =>
    rw [equalWithin_list_iff, Heap.items_eq hr, Heap.items_eq hs]
    refine .inr (forall₂_of_map_eq (forall₂_and_mem ih hitems)
      (forall₂_and_mem hds hitems') hmap.symm fun x y x' y' hxy hxy' heq => ?_)
    exact hxy.1 k x' y' (Nat.le_of_succ_le_succ hle) hxy'.1 hxy.2 hxy'.2 heq
  case dict =>
    intro n r entries data hr hentries ih m v' d' hle hd' hkeys hkeys' hjson
    rw [Data.json, Json.object] at hjson
    obtain ⟨k, s, entries', ds, rfl, rfl, rfl, hs, hds, hmembers⟩ := dict_of_json hd' hjson.symm
    cases hkeys with
    | dict _ hnodup hvalues =>
    cases hkeys' with
    | dict _ hnodup' hvalues' =>
    have hperm : (entryDocuments data).Perm (entryDocuments ds) := by
      rw [← keys_entryDocuments] at hnodup hnodup'
      exact (Json.perm_membersOf hnodup).symm.trans (hmembers ▸ Json.perm_membersOf hnodup')
    have hlength : data.length = ds.length := by
      simpa [entryDocuments_eq_map] using hperm.length_eq
    rw [equalWithin_dict_iff, Heap.entries_eq hr, Heap.entries_eq hs]
    refine .inr ⟨?_, fun e he => ?_⟩
    · exact hentries.length_eq.trans (hlength.trans hds.length_eq.symm)
    · obtain ⟨p, hp, hkey, heq⟩ := exists_right_of_mem ih he
      have hmem : (p.1, p.2.json) ∈ entryDocuments ds :=
        hperm.mem_iff.mp (mem_entryDocuments.mpr ⟨p, hp, rfl⟩)
      obtain ⟨q, hq, hpq⟩ := mem_entryDocuments.mp hmem
      rw [Prod.mk.injEq] at hpq
      obtain ⟨⟨key, w⟩, hw, hkey', hdw⟩ := exists_right_of_mem hds.flip hq
      refine ⟨w, Entries.get?_of_mem ?_ ?_, ?_⟩
      · rw [hds.keys_eq]
        exact hnodup'
      · rwa [hkey, ← hpq.1, ← hkey']
      · exact heq k w q.2 (Nat.le_of_succ_le_succ hle) hdw (hvalues p hp) (hvalues' q hq) hpq.2.symm

/-- A value that stands for a tree is plain. -/
theorem plainWithin_of_data (hd : dataWithin h n v = some d) :
    d.DistinctKeys → PlainWithin h n v := by
  refine dataWithin_induction (motive := fun n v d => d.DistinctKeys → PlainWithin h n v)
    ?none ?bool ?int ?str ?list ?dict hd
  case none => exact fun n _ => .none n
  case bool => exact fun n b _ => .bool n b
  case int => exact fun n i _ => .int n i
  case str => exact fun n s _ => .str n s
  case list =>
    intro n r values items hr _ ih hkeys
    cases hkeys with
    | list _ hitems =>
    refine .list fun v hv => ?_
    rw [Heap.items_eq hr] at hv
    obtain ⟨d, hd, hplain⟩ := exists_right_of_mem ih hv
    exact hplain (hitems d hd)
  case dict =>
    intro n r entries data hr hentries ih hkeys
    cases hkeys with
    | dict _ hnodup hvalues =>
    refine .dict ?_ fun e he => ?_
    · rw [Heap.entries_eq hr, hentries.keys_eq]
      exact hnodup
    · rw [Heap.entries_eq hr] at he
      obtain ⟨p, hp, -, hplain⟩ := exists_right_of_mem ih he
      exact hplain (hvalues p hp)

/-- Values that stand for trees which are written as one document are equal. -/
theorem equalValues_of_json (hd : dataWithin h n v = some d) (hd' : dataWithin h m v' = some d')
    (hkeys : d.DistinctKeys) (hkeys' : d'.DistinctKeys) (hjson : d.json = d'.json) :
    equalValues h v v' = some true := by
  have hplain := plainWithin_of_data hd hkeys
  have hplain' := plainWithin_of_data hd' hkeys'
  have heq : equalWithin h .none (max n m) v v' = some true :=
    equalWithin_of_json hd _ v' d' (Nat.le_max_left n m)
      (dataWithin_mono (.refl h) (Nat.le_max_right n m) hd') hkeys hkeys' hjson
  rw [(hplain.mono (Nat.le_max_left n m)).equalWithin_iff (hplain'.mono (Nat.le_max_right n m)),
    hplain.formWithin_eq (Nat.le_max_left n m), hplain'.formWithin_eq (Nat.le_max_right n m)] at heq
  rwa [equalValues_iff ⟨n, hplain⟩ ⟨m, hplain'⟩, hplain.form_eq, hplain'.form_eq]

/-! ### Round trips -/

/-- The value of a document that can be passed to a skill is written as this document again, as long
as the lists and dicts that were made for it are the same. -/
theorem toJson_ofJson {j : Json} (hj : j.Passable maxSkillNesting)
    (hext : (ofJson h j).2.Extends h') : toJson h' (ofJson h j).1 = .ok j := by
  obtain ⟨-, d, hd, -, rfl⟩ := rebuilds_of_passable hj h
  exact toJson_of_dataWithin (Nat.le_refl _) (dataWithin_mono hext (Nat.le_refl _) hd)

/-- The value of the document that a value is written as is equal to the value. -/
theorem equalValues_ofJson (hd : dataWithin h n v = some d) (hkeys : d.DistinctKeys) :
    equalValues (ofJson h d.json).2 (ofJson h d.json).1 v = some true ∧
      equalValues (ofJson h d.json).2 v (ofJson h d.json).1 = some true := by
  obtain ⟨hext, d', hd', hkeys', hjson⟩ := rebuilds_of_passable (passable_of_dataWithin hd) h
  have hd := dataWithin_mono hext (Nat.le_refl n) hd
  exact ⟨equalValues_of_json hd' hd hkeys' hkeys hjson,
    equalValues_of_json hd hd' hkeys hkeys' hjson.symm⟩

/-- The arguments of a skill are the documents of their values. -/
theorem skillArgs_of_toJson {args : CallArgs} {positional : List Json}
    {keyword : List (String × Json)}
    (hpositional : List.Forall₂ (fun v j => toJson h v = .ok j) args.positional positional)
    (hkeyword : List.Forall₂ (fun e m => e.1 = m.1 ∧ toJson h e.2 = .ok m.2) args.keyword keyword) :
    skillArgs args h = .ok ⟨positional, Json.membersOf keyword⟩ := by
  have hitems : jsonItems h args.positional = .ok positional := by
    generalize args.positional = values at hpositional
    induction hpositional with
    | nil => rfl
    | cons hv _ ih =>
      rw [jsonItems, hv, ih]
      rfl
  have hmembers : jsonMembers h args.keyword = .ok keyword := by
    generalize args.keyword = entries at hkeyword
    induction hkeyword with
    | nil => rfl
    | cons hv _ ih =>
      rw [jsonMembers, hv.2, ih, hv.1]
      rfl
  rw [skillArgs, hitems, hmembers]
  rfl

/-- A skill that is called with the front matter and the context of a note receives both as they
are. -/
theorem skillArgs_contextValue {note : NoteContext}
    (hfrontmatter : (Json.obj note.frontmatter).Passable maxSkillNesting)
    (hcontext : (Json.obj note.context).Passable maxSkillNesting) (h : Heap) :
    let frontmatter := contextValue note .frontmatter h
    let context := contextValue note .context frontmatter.2
    skillArgs ⟨[frontmatter.1, context.1], []⟩ context.2 =
      .ok ⟨[.obj note.frontmatter, .obj note.context], []⟩ := by
  intro frontmatter context
  have hext := (rebuilds_of_passable hcontext frontmatter.2).1
  have hpositional : List.Forall₂ (fun v j => toJson context.2 v = .ok j)
      [frontmatter.1, context.1] [.obj note.frontmatter, .obj note.context] :=
    .cons (toJson_ofJson hfrontmatter hext) (.cons (toJson_ofJson hcontext (.refl _)) .nil)
  have hkeyword : List.Forall₂ (fun (e : String × Value) (m : String × Json) =>
      e.1 = m.1 ∧ toJson context.2 e.2 = .ok m.2) [] [] := .nil
  exact @skillArgs_of_toJson _ ⟨_, []⟩ _ _ hpositional hkeyword

/-- A document of integers of 64 bits, with at most 128 arrays and objects inside each other, is the
document of the value that is made for it, in whatever heap it is made and whatever is added to the
heap afterwards. Conversely, a value that stands for a tree of at most 128 lists and dicts inside
each other, in dicts with distinct keys, has a document whose value is equal to it. -/
theorem json_round_trip :
    (∀ (members : Json.Members) (h h' : Heap), (Json.obj members).Passable maxSkillNesting →
      (dictOfMembers h members).2.Extends h' →
        toJson h' (dictOfMembers h members).1 = .ok (.obj members)) ∧
    ∀ (h : Heap) (v : Value) (d : Data), dataWithin h maxSkillNesting v = some d → d.DistinctKeys →
      ∃ j, toJson h v = .ok j ∧
        equalValues (ofJson h j).2 (ofJson h j).1 v = some true ∧
        equalValues (ofJson h j).2 v (ofJson h j).1 = some true :=
  ⟨fun _ _ _ hj hext => toJson_ofJson hj hext, fun _ _ d hd hkeys =>
    ⟨d.json, toJson_of_dataWithin (Nat.le_refl _) hd, equalValues_ofJson hd hkeys⟩⟩

/-- A dict whose keys are not in order, with a list that it holds twice, and an object like it. -/
theorem json_round_trip_shared :
    let h : Heap := ⟨#[#[.bool true, .str ""]], #[[("b", .list ⟨0⟩), ("a", .list ⟨0⟩)]], #[]⟩
    let members : Json.Members := [("a", .arr [.null]), ("b", .int (-1))]
    toJson (dictOfMembers h members).2 (dictOfMembers h members).1 = .ok (.obj members) ∧
      ∃ j, toJson h (.dict ⟨0⟩) = .ok j ∧
        equalValues (ofJson h j).2 (ofJson h j).1 (.dict ⟨0⟩) = some true ∧
        equalValues (ofJson h j).2 (.dict ⟨0⟩) (ofJson h j).1 = some true := by
  intro h members
  refine ⟨json_round_trip.1 members h _ ?_ (.refl _), json_round_trip.2 h (.dict ⟨0⟩)
    (.dict [("b", .list [.bool true, .str ""]), ("a", .list [.bool true, .str ""])]) rfl ?_⟩
  · refine .obj _ _ (by decide) ?_
    simp only [members, List.forall_mem_cons, List.not_mem_nil, false_imp_iff,
      implies_true, and_true]
    exact ⟨.arr _ _ (by simpa using .null _), .int _ _ (by decide) (by decide)⟩
  · have hitems : (Data.list [.bool true, .str ""]).DistinctKeys :=
      .list _ (by simpa using ⟨.bool true, .str ""⟩)
    exact .dict _ (by decide) (by simpa using hitems)

end NoteShell.Script
