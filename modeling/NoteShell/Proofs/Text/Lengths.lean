import Mathlib.Algebra.Ring.Nat
import Mathlib.Tactic.Common
import NoteShell.Text.Search
import NoteShell.Text.Trim

/-!
# Lengths of texts

How long a text is that is joined or trimmed. Sizes are checked in bytes, of which a text has at
least as many as it has characters.

## Main definitions

* `AddsUp` : sizes of texts that add up over their parts.

## Main results

* `length_le_utf8ByteSize` : a text has no more characters than bytes.
* `AddsUp.join` : the size of a joined text.
* `length_trimWhile_le` : trimming makes no text longer.
-/

namespace NoteShell.Text

/-! ### Sizes -/

/-- A size of texts, such as characters or bytes, adds up over their parts. -/
def AddsUp (size : String → Nat) : Prop := ∀ s t, size (s ++ t) = size s + size t

theorem addsUp_length : AddsUp String.length := String.length_append

theorem addsUp_utf8ByteSize : AddsUp String.utf8ByteSize := fun _ _ => String.utf8ByteSize_append

namespace AddsUp

variable {size size' : String → Nat} (hsize : AddsUp size)

include hsize

theorem empty : size "" = 0 := by
  have h := hsize "" ""
  rw [String.append_empty] at h
  omega

theorem concat (pieces : List String) : size (String.join pieces) = (pieces.map size).sum := by
  induction pieces with
  | nil => rw [String.join_nil, hsize.empty, List.map_nil, List.sum_nil]
  | cons p pieces ih => rw [String.join_cons, hsize, ih, List.map_cons, List.sum_cons]

theorem replicate (n : Nat) (s : String) :
    size (String.join (List.replicate n s)) = n * size s := by
  rw [hsize.concat, List.map_replicate, List.sum_replicate_nat]

/-- The size of a text is that of its characters. -/
theorem ofList_cons (c : Char) (cs : List Char) :
    size (String.ofList (c :: cs)) = size (String.singleton c) + size (String.ofList cs) := by
  rw [← hsize, String.singleton_eq_ofList, ← String.ofList_append]
  rfl

theorem le_of_forall_mem (hsize' : AddsUp size') {s : String}
    (h : ∀ c ∈ s.toList, size (String.singleton c) ≤ size' (String.singleton c)) :
    size s ≤ size' s := by
  obtain ⟨cs, rfl⟩ : ∃ cs, s = String.ofList cs := ⟨s.toList, String.ofList_toList.symm⟩
  rw [String.toList_ofList] at h
  induction cs with
  | nil => exact Nat.le_of_eq (hsize.empty.trans hsize'.empty.symm)
  | cons c cs ih =>
    rw [List.forall_mem_cons] at h
    rw [hsize.ofList_cons, hsize'.ofList_cons]
    exact Nat.add_le_add h.1 (ih h.2)

/-- The texts and the separators between them. -/
theorem join (sep : String) (pieces : List String) :
    size (join sep pieces) = (pieces.map size).sum + size sep * (pieces.length - 1) := by
  rw [Text.join]
  induction pieces with
  | nil => exact hsize.empty
  | cons p pieces ih =>
    cases pieces with
    | nil => simp
    | cons q pieces =>
      have hlength : (q :: pieces).length - 1 + 1 = (p :: q :: pieces).length - 1 := rfl
      have hsum : ((p :: q :: pieces).map size).sum = size p + ((q :: pieces).map size).sum := by
        rw [List.map_cons, List.sum_cons]
      rw [String.intercalate_cons_cons, hsize, hsize, ih, ← hlength, Nat.mul_succ, hsum]
      omega

/-- A text with a further one after every character. -/
theorem singletons (new : String) (s : String) :
    size (String.join (s.toList.map fun c => String.singleton c ++ new)) =
      size s + s.length * size new := by
  obtain ⟨cs, rfl⟩ : ∃ cs, s = String.ofList cs := ⟨s.toList, String.ofList_toList.symm⟩
  rw [String.toList_ofList, String.length_ofList]
  induction cs with
  | nil => simp [hsize.empty]
  | cons c cs ih =>
    rw [List.map_cons, String.join_cons, hsize, hsize, ih, hsize.ofList_cons, List.length_cons,
      Nat.succ_mul]
    omega

end AddsUp

theorem length_le_utf8ByteSize (s : String) : s.length ≤ s.utf8ByteSize := by
  refine addsUp_length.le_of_forall_mem addsUp_utf8ByteSize fun c _ => ?_
  rw [String.length_singleton, String.utf8ByteSize_singleton]
  exact c.utf8Size_pos

theorem length_toList_le_utf8ByteSize (s : String) : s.toList.length ≤ s.utf8ByteSize := by
  rw [String.length_toList]
  exact length_le_utf8ByteSize s

/-- Characters of seven bits have one byte each. -/
theorem utf8ByteSize_eq_length {s : String} (hs : ∀ c ∈ s.toList, c.toNat < 128) :
    s.utf8ByteSize = s.length := by
  refine Nat.le_antisymm (addsUp_utf8ByteSize.le_of_forall_mem addsUp_length fun c hc => ?_)
    (length_le_utf8ByteSize s)
  rw [String.utf8ByteSize_singleton, String.length_singleton]
  exact Nat.le_of_eq (Char.utf8Size_eq_one_iff.mpr (Nat.le_of_lt_succ (hs c hc)))

theorem length_join (sep : String) (pieces : List String) :
    (join sep pieces).length =
      (pieces.map String.toList).flatten.length + sep.length * (pieces.length - 1) := by
  rw [addsUp_length.join, List.length_flatten, List.map_map]
  rfl

/-! ### Trimming -/

theorem length_dropEndWhile_le {α : Type} (p : α → Bool) (xs : List α) :
    (dropEndWhile p xs).length ≤ xs.length := by
  have hle := (List.dropWhile_suffix p (l := xs.reverse)).length_le
  rw [List.length_reverse] at hle
  rwa [dropEndWhile, List.length_reverse]

theorem length_trimStartWhile_le (p : Char → Bool) (s : String) :
    (trimStartWhile p s).length ≤ s.length := by
  have hle := (List.dropWhile_suffix p (l := s.toList)).length_le
  rwa [trimStartWhile, String.length_ofList, ← String.length_toList]

theorem length_trimEndWhile_le (p : Char → Bool) (s : String) :
    (trimEndWhile p s).length ≤ s.length := by
  have hle := length_dropEndWhile_le p s.toList
  rwa [trimEndWhile, String.length_ofList, ← String.length_toList]

theorem length_trimWhile_le (p : Char → Bool) (s : String) :
    (trimWhile p s).length ≤ s.length := by
  have hstart := (List.dropWhile_suffix p (l := s.toList)).length_le
  have hle := length_dropEndWhile_le p (s.toList.dropWhile p)
  rw [trimWhile, String.length_ofList, ← String.length_toList]
  exact Nat.le_trans hle hstart

end NoteShell.Text
