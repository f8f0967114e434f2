import NoteShell.Proofs.Json.Sound

/-!
# Members of objects

An object that is made of entries in any order has its members in the order of their keys. Where the
keys are distinct, all entries become members, and members that stand in order already stay in
place.

## Main results

* `Json.perm_membersOf` : entries with distinct keys are the members, in another order.
* `Json.membersOf_of_pairwise` : members in the order of their keys are left alone.
-/

namespace NoteShell.Json

/-- A new key is added to the others. -/
theorem perm_insert {key : String} {members : Members} (hkey : key ∉ members.map (·.1))
    (value : Json) : (insert key value members).Perm ((key, value) :: members) := by
  induction members with
  | nil => exact .refl _
  | cons m members ih =>
    obtain ⟨k, v⟩ := m
    rw [List.map_cons, List.mem_cons, not_or] at hkey
    rw [insert, if_neg (Ne.symm hkey.1)]
    split_ifs
    · exact .refl _
    · exact ((ih hkey.2).cons (k, v)).trans (.swap _ _ _)

theorem pairwise_foldl_insert (entries : List (String × Json)) {members : Members}
    (hmembers : (members.map (·.1)).Pairwise (· < ·)) :
    ((entries.foldl (fun acc e => insert e.1 e.2 acc) members).map (·.1)).Pairwise (· < ·) := by
  induction entries generalizing members with
  | nil => exact hmembers
  | cons e entries ih => exact ih (pairwise_insert hmembers e.1 e.2)

theorem mem_of_mem_foldl_insert {entries : List (String × Json)} {members : Members}
    {m : String × Json} (hm : m ∈ entries.foldl (fun acc e => insert e.1 e.2 acc) members) :
    m ∈ members ∨ m ∈ entries := by
  induction entries generalizing members with
  | nil => exact .inl hm
  | cons e entries ih =>
    rcases ih hm with hm | hm
    · rcases mem_of_mem_insert hm with rfl | hm
      · exact .inr List.mem_cons_self
      · exact .inl hm
    · exact .inr (List.mem_cons_of_mem _ hm)

theorem perm_foldl_insert {entries : List (String × Json)} {members : Members}
    (hkeys : ((members ++ entries).map (·.1)).Nodup) :
    (entries.foldl (fun acc e => insert e.1 e.2 acc) members).Perm (members ++ entries) := by
  induction entries generalizing members with
  | nil => rw [List.append_nil]; exact .refl _
  | cons e entries ih =>
    have hnew : e.1 ∉ members.map (·.1) := by
      intro hmem
      rw [List.map_append, List.nodup_append] at hkeys
      exact hkeys.2.2 e.1 hmem e.1 List.mem_cons_self rfl
    have hperm : (insert e.1 e.2 members ++ entries).Perm (members ++ e :: entries) :=
      ((perm_insert hnew e.2).append_right entries).trans List.perm_middle.symm
    exact (ih ((hperm.map _).nodup_iff.mpr hkeys)).trans hperm

/-- The members of an object stand in the order of their keys. -/
theorem pairwise_membersOf (entries : List (String × Json)) :
    ((membersOf entries).map (·.1)).Pairwise (· < ·) :=
  pairwise_foldl_insert entries .nil

theorem mem_of_mem_membersOf {entries : List (String × Json)} {m : String × Json}
    (hm : m ∈ membersOf entries) : m ∈ entries :=
  (mem_of_mem_foldl_insert hm).resolve_left List.not_mem_nil

/-- With distinct keys all entries are members. -/
theorem perm_membersOf {entries : List (String × Json)} (hkeys : (entries.map (·.1)).Nodup) :
    (membersOf entries).Perm entries :=
  perm_foldl_insert hkeys

theorem nodup_of_pairwise {keys : List String} (h : keys.Pairwise (· < ·)) : keys.Nodup :=
  h.imp fun {_ _} hlt => String.ne_of_lt hlt

/-- Members in the order of their keys stay where they are. -/
theorem membersOf_of_pairwise {members : Members} (h : (members.map (·.1)).Pairwise (· < ·)) :
    membersOf members = members := by
  have hpairs {ms : Members} (hms : (ms.map (·.1)).Pairwise (· < ·)) :
      ms.Pairwise fun a b => a.1 < b.1 := List.pairwise_map.mp hms
  exact List.Perm.eq_of_pairwise (fun a b _ _ hab hba => absurd hab (String.lt_asymm hba))
    (hpairs (pairwise_membersOf members)) (hpairs h) (perm_membersOf (nodup_of_pairwise h))

end NoteShell.Json
