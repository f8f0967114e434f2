import Mathlib.Tactic.Common
import NoteShell.Script.Value

/-!
# The entries of a dict

The entries of a dict are a list in which each key occurs once. Setting a key that is there keeps
its place, setting another one adds it at the end, and no other entry is changed in either case.

## Main results

* `set_of_mem`, `set_of_not_mem` : what setting a key does to the list.
* `nodup_keys_set`, `nodup_keys_erase` : keys stay distinct.
-/

namespace NoteShell.Script.Entries

variable {key k : String} {v : Value} {es : Entries}

@[simp] theorem keys_nil : keys [] = [] := rfl

@[simp] theorem keys_cons (e : String × Value) (es : Entries) : keys (e :: es) = e.1 :: keys es :=
  rfl

@[simp] theorem keys_append (es es' : Entries) : keys (es ++ es') = keys es ++ keys es' :=
  List.map_append

/-! ### Setting a key -/

/-- A new key goes to the end. -/
theorem set_of_not_mem (h : key ∉ keys es) (v : Value) : set key v es = es ++ [(key, v)] := by
  induction es with
  | nil => rfl
  | cons e es ih =>
    rw [keys_cons, List.mem_cons, not_or] at h
    rw [set, if_neg (Ne.symm h.1), ih h.2]
    rfl

/-- An old key keeps its place. -/
theorem set_of_mem (h : key ∈ keys es) (v : Value) : ∃ before old after,
    es = before ++ (key, old) :: after ∧ key ∉ keys before ∧
      set key v es = before ++ (key, v) :: after := by
  induction es with
  | nil => simp at h
  | cons e es ih =>
    obtain ⟨k, w⟩ := e
    by_cases hk : k = key
    · subst hk
      exact ⟨[], w, es, rfl, List.not_mem_nil, by rw [set, if_pos rfl]; rfl⟩
    · have hmem : key ∈ keys es := (List.mem_cons.mp h).resolve_left (Ne.symm hk)
      obtain ⟨before, old, after, hes, hbefore, hset⟩ := ih hmem
      refine ⟨(k, w) :: before, old, after, congrArg _ hes, ?_, ?_⟩
      · rw [keys_cons, List.mem_cons, not_or]
        exact ⟨Ne.symm hk, hbefore⟩
      · rw [set, if_neg hk, hset]
        rfl

theorem keys_set_of_mem (h : key ∈ keys es) (v : Value) : keys (set key v es) = keys es := by
  obtain ⟨before, old, after, hes, -, hset⟩ := set_of_mem h v
  rw [hset, hes]
  simp

theorem mem_of_mem_set {e : String × Value} (h : e ∈ set key v es) : e = (key, v) ∨ e ∈ es := by
  by_cases hkey : key ∈ keys es
  · obtain ⟨before, old, after, hes, -, hset⟩ := set_of_mem hkey v
    rw [hset, List.mem_append, List.mem_cons] at h
    rw [hes, List.mem_append, List.mem_cons]
    tauto
  · rw [set_of_not_mem hkey, List.mem_append, List.mem_singleton] at h
    exact h.symm

/-- Setting a key keeps all keys distinct. -/
theorem nodup_keys_set (h : (keys es).Nodup) (key : String) (v : Value) :
    (keys (set key v es)).Nodup := by
  by_cases hkey : key ∈ keys es
  · rwa [keys_set_of_mem hkey]
  · rw [set_of_not_mem hkey, keys_append]
    refine List.nodup_append.mpr ⟨h, List.pairwise_singleton _ _, fun k hk k' hk' heq => ?_⟩
    obtain rfl : k' = key := List.mem_singleton.mp hk'
    exact hkey (heq ▸ hk)

/-! ### Erasing a key -/

theorem erase_sublist (key : String) (es : Entries) : (erase key es).Sublist es := by
  induction es with
  | nil => exact List.Sublist.refl _
  | cons e es ih =>
    rw [erase]
    split_ifs
    · exact List.sublist_cons_self e es
    · exact ih.cons_cons e

/-- Erasing a key keeps all keys distinct. -/
theorem nodup_keys_erase (h : (keys es).Nodup) (key : String) : (keys (erase key es)).Nodup :=
  h.sublist ((erase_sublist key es).map _)

/-! ### Looking up a key -/

theorem get?_set_self (key : String) (v : Value) (es : Entries) :
    get? key (set key v es) = some v := by
  induction es with
  | nil => simp [set, get?]
  | cons e es ih =>
    rw [set]
    split_ifs with hk
    · rw [get?, if_pos rfl]
    · rw [get?, if_neg hk, ih]

theorem get?_set_of_ne (h : k ≠ key) (v : Value) (es : Entries) :
    get? k (set key v es) = get? k es := by
  induction es with
  | nil => simp [set, get?, Ne.symm h]
  | cons entry es ih =>
    obtain ⟨m, w⟩ := entry
    rw [set]
    split_ifs with hm
    · rw [get?, get?, if_neg (Ne.symm h), if_neg (hm ▸ Ne.symm h)]
    · rw [get?, get?, ih]

theorem get?_erase_of_ne (h : k ≠ key) (es : Entries) : get? k (erase key es) = get? k es := by
  induction es with
  | nil => rfl
  | cons entry es ih =>
    obtain ⟨m, w⟩ := entry
    rw [erase]
    split_ifs with hm
    · rw [get?, if_neg (hm ▸ Ne.symm h)]
    · rw [get?, get?, ih]

theorem mem_of_get? (h : get? key es = some v) : (key, v) ∈ es := by
  induction es with
  | nil => cases h
  | cons e es ih =>
    obtain ⟨k, w⟩ := e
    rw [get?] at h
    split_ifs at h with hk
    · cases h
      exact hk ▸ List.mem_cons_self
    · exact List.mem_cons_of_mem _ (ih h)

theorem get?_of_mem (hkeys : (keys es).Nodup) (he : (key, v) ∈ es) : get? key es = some v := by
  induction es with
  | nil => simp at he
  | cons e es ih =>
    obtain ⟨k, w⟩ := e
    rw [keys_cons, List.nodup_cons] at hkeys
    rw [get?]
    rcases List.mem_cons.mp he with heq | he
    · cases heq
      rw [if_pos rfl]
    · have hkey : key ∈ keys es := List.mem_map_of_mem he
      have hne : k ≠ key := fun hk => hkeys.1 (hk ▸ hkey)
      rw [if_neg hne, ih hkeys.2 he]

theorem get?_eq_none_iff : get? key es = none ↔ key ∉ keys es := by
  induction es with
  | nil => simp [get?]
  | cons e es ih =>
    obtain ⟨k, w⟩ := e
    rw [get?, keys_cons, List.mem_cons, not_or]
    split_ifs with hk
    · simp [hk]
    · rw [ih, and_iff_right (Ne.symm hk)]

/-- Where keys are distinct, the order of the entries does not matter. -/
theorem get?_of_perm {es' : Entries} (hkeys : (keys es).Nodup) (hperm : es.Perm es')
    (key : String) : get? key es' = get? key es := by
  have hkeys' : (keys es').Nodup := (hperm.map Prod.fst).nodup_iff.mp hkeys
  cases hget : get? key es with
  | some v => exact get?_of_mem hkeys' (hperm.mem_iff.mp (mem_of_get? hget))
  | none =>
    rw [get?_eq_none_iff] at hget ⊢
    exact fun hkey => hget ((hperm.map Prod.fst).mem_iff.mpr hkey)

end NoteShell.Script.Entries
