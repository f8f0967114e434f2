import Mathlib.Tactic.Common
import NoteShell.Proofs.Text.Lengths

/-!
# Occurrences of a text

Searching, splitting, counting and replacing all take the same occurrences of a separator: from left
to right the first one, then the first one after its end, and so on. One relation says where these
are. It cuts a text into the pieces between them, and whatever is computed is read off from the
pieces.

## Main definitions

* `Precedes` : an occurrence after a piece is the first one.
* `Cut` : a text is cut at the first occurrences of a separator.

## Main results

* `cut_splitAtMost`, `cut_splitAll` : splitting cuts a text at its occurrences.
* `Cut.intercalate_eq`, `Cut.not_isInfix`, `Cut.length_eq_min` : how the pieces make up the text,
  what they do not hold, and how many there are.
* `find?_eq`, `occursIn_eq`, `occursIn_iff_isInfix` : searching finds the first occurrence.
* `AddsUp.replace` : the size of a text in which occurrences are replaced.
* `length_splitOn`, `not_mem_of_mem_splitOn` : the pieces between separators of one character.
-/

namespace NoteShell.Text

variable {sep cs piece piece' rest rest' : List Char} {pieces : List (List Char)} {c : Char}
  {cuts most : Nat}

/-! ### The first occurrence -/

/-- An occurrence of a separator right after a piece is the first one. Any other one that begins
inside of the piece ends before the last character of this one. -/
def Precedes (sep piece : List Char) : Prop := ¬ sep <:+: piece ++ sep.dropLast

theorem precedes_nil (hsep : sep ≠ []) : Precedes sep [] := by
  intro hoccurs
  have hle := hoccurs.length_le
  have hpos := List.length_pos_iff.mpr hsep
  rw [List.nil_append, List.length_dropLast] at hle
  omega

namespace Precedes

theorem sep_ne_nil (hpiece : Precedes sep piece) : sep ≠ [] := by
  rintro rfl
  exact hpiece List.nil_infix

theorem not_isInfix (hpiece : Precedes sep piece) : ¬ sep <:+: piece :=
  fun hoccurs => hpiece (hoccurs.trans (List.prefix_append _ _).isInfix)

/-- All of a piece but the last character of the separator after it is a beginning of the text. -/
theorem prefix_append_dropLast (sep piece rest : List Char) :
    piece ++ sep.dropLast <+: piece ++ sep ++ rest := by
  rw [List.append_assoc]
  exact (List.prefix_append_right_inj _).mpr
    ((List.dropLast_prefix sep).trans (List.prefix_append _ _))

/-- One more character before a piece, where no occurrence begins. -/
theorem cons (hpiece : Precedes sep piece) (hc : ¬ sep <+: c :: (piece ++ sep ++ rest)) :
    Precedes sep (c :: piece) := by
  intro hoccurs
  rcases List.infix_cons_iff.mp hoccurs with hbegins | hoccurs
  · exact hc (hbegins.trans (prefix_append_dropLast sep (c :: piece) rest))
  · exact hpiece hoccurs

/-- What begins before the first occurrence is none. -/
theorem length_le (hpiece : Precedes sep piece)
    (heq : piece ++ sep ++ rest = piece' ++ sep ++ rest') : piece.length ≤ piece'.length := by
  by_contra hlt
  have hpos := List.length_pos_iff.mpr hpiece.sep_ne_nil
  have hbegins : piece' ++ sep <+: piece ++ sep.dropLast := by
    refine List.prefix_of_prefix_length_le (heq ▸ List.prefix_append _ _)
      (prefix_append_dropLast sep piece rest) ?_
    rw [List.length_append, List.length_append, List.length_dropLast]
    omega
  exact hpiece ((List.suffix_append piece' sep).isInfix.trans hbegins.isInfix)

/-- There is one first occurrence. -/
theorem unique (hpiece : Precedes sep piece) (hpiece' : Precedes sep piece')
    (heq : piece ++ sep ++ rest = piece' ++ sep ++ rest') : piece = piece' ∧ rest = rest' := by
  have hlength := Nat.le_antisymm (hpiece.length_le heq) (hpiece'.length_le heq.symm)
  rw [List.append_assoc, List.append_assoc] at heq
  obtain ⟨hpieces, hrest⟩ := List.append_inj heq hlength
  exact ⟨hpieces, List.append_cancel_left hrest⟩

end Precedes

/-! ### Cutting -/

/-- A text is cut at the first occurrences of a separator, each of which begins after the one before
it has ended, and at no more of them than is said. -/
inductive Cut (sep : List Char) : (cuts : Nat) → List Char → List (List Char) → Prop
  | stop (cs : List Char) : Cut sep 0 cs [cs]
  | last {cuts : Nat} {cs : List Char} (hcs : ¬ sep <:+: cs) : Cut sep cuts cs [cs]
  | piece {cuts : Nat} {piece rest : List Char} {pieces : List (List Char)}
    (hpiece : Precedes sep piece) (hrest : Cut sep cuts rest pieces) :
    Cut sep (cuts + 1) (piece ++ sep ++ rest) (piece :: pieces)

namespace Cut

theorem ne_nil (h : Cut sep cuts cs pieces) : pieces ≠ [] := by
  cases h <;> exact List.cons_ne_nil _ _

/-- One more character before a text, where no occurrence begins. -/
theorem cons (h : Cut sep (cuts + 1) cs (piece :: pieces)) (hc : ¬ sep <+: c :: cs) :
    Cut sep (cuts + 1) (c :: cs) ((c :: piece) :: pieces) := by
  cases h with
  | last hcs => exact .last fun hoccurs => (List.infix_cons_iff.mp hoccurs).elim hc hcs
  | piece hpiece hrest => exact .piece (hpiece.cons hc) hrest

/-- The pieces with the separator between them are the text. -/
theorem intercalate_eq (h : Cut sep cuts cs pieces) : sep.intercalate pieces = cs := by
  induction h with
  | stop | last => exact List.intercalate_singleton
  | @piece cuts piece rest pieces _ hrest ih =>
    obtain ⟨next, others, rfl⟩ := List.exists_cons_of_ne_nil hrest.ne_nil
    rw [List.intercalate_cons_cons, ih]

/-- Where there are enough cuts, no piece has an occurrence in it. -/
theorem not_isInfix (h : Cut sep cuts cs pieces) (hsep : sep ≠ []) (hcuts : cs.length ≤ cuts) :
    ∀ p ∈ pieces, ¬ sep <:+: p := by
  induction h with
  | stop cs =>
    rw [List.eq_nil_of_length_eq_zero (Nat.le_zero.mp hcuts), List.forall_mem_singleton,
      List.infix_nil]
    exact hsep
  | last hcs => exact List.forall_mem_singleton.mpr hcs
  | piece hpiece hrest ih =>
    have hpos := List.length_pos_iff.mpr hsep
    rw [List.length_append, List.length_append] at hcuts
    exact List.forall_mem_cons.mpr ⟨hpiece.not_isInfix, ih (by omega)⟩

/-- There are at most as many occurrences as characters. -/
theorem length_le (h : Cut sep cuts cs pieces) : pieces.length ≤ cs.length + 1 := by
  induction h with
  | stop | last => exact Nat.succ_le_succ (Nat.zero_le _)
  | piece hpiece hrest ih =>
    have hpos := List.length_pos_iff.mpr hpiece.sep_ne_nil
    rw [List.length_cons, List.length_append, List.length_append]
    omega

/-- How a text is cut where its first occurrence is known. -/
theorem exists_eq_cons (h : Cut sep (cuts + 1) (piece ++ sep ++ rest) pieces)
    (hpiece : Precedes sep piece) : ∃ others, pieces = piece :: others ∧
      Cut sep cuts rest others := by
  generalize hcs : piece ++ sep ++ rest = cs at h
  cases h with
  | last hnone =>
    subst hcs
    exact absurd ⟨piece, rest, rfl⟩ hnone
  | @piece _ piece' rest' others hpiece' hrest =>
    obtain ⟨rfl, rfl⟩ := hpiece.unique hpiece' hcs
    exact ⟨others, rfl, hrest⟩

/-- With fewer cuts there are as many pieces as the cuts allow. -/
theorem length_eq_min {all : List (List Char)} (h : Cut sep cuts cs pieces)
    (hall : Cut sep most cs all) (hmost : cs.length ≤ most) :
    pieces.length = min cuts (all.length - 1) + 1 := by
  induction h generalizing most all with
  | stop => rw [Nat.zero_min, List.length_singleton]
  | last hcs =>
    cases hall with
    | stop | last => rw [List.length_singleton, Nat.sub_self, Nat.min_zero]
    | piece => exact absurd ⟨_, _, rfl⟩ hcs
  | piece hpiece hrest ih =>
    have hpos := List.length_pos_iff.mpr hpiece.sep_ne_nil
    rw [List.length_append, List.length_append] at hmost
    obtain ⟨most, rfl⟩ : ∃ n, most = n + 1 := ⟨most - 1, by omega⟩
    obtain ⟨others, rfl, hothers⟩ := hall.exists_eq_cons hpiece
    have hothersPos := List.length_pos_iff.mpr hothers.ne_nil
    rw [List.length_cons, List.length_cons, ih hothers (by omega)]
    omega

/-- Where there are enough cuts, one more changes nothing. -/
theorem succ (h : Cut sep cuts cs pieces) (hsep : sep ≠ []) (hcuts : cs.length ≤ cuts) :
    Cut sep (cuts + 1) cs pieces := by
  induction h with
  | stop cs =>
    rw [List.eq_nil_of_length_eq_zero (Nat.le_zero.mp hcuts)]
    exact .last (by rwa [List.infix_nil])
  | last hcs => exact .last hcs
  | piece hpiece hrest ih =>
    have hpos := List.length_pos_iff.mpr hsep
    rw [List.length_append, List.length_append] at hcuts
    exact .piece hpiece (ih (by omega))

/-- A separator occurs in a text that is cut into several pieces. -/
theorem isInfix_iff (h : Cut sep (cuts + 1) cs pieces) : sep <:+: cs ↔ 1 < pieces.length := by
  cases h with
  | last hcs => exact iff_of_false hcs (Nat.lt_irrefl 1)
  | piece _ hrest =>
    exact iff_of_true ⟨_, _, rfl⟩ (Nat.succ_lt_succ (List.length_pos_iff.mpr hrest.ne_nil))

end Cut

/-! ### Splitting -/

/-- The scan cuts what is left of the text after the current occurrence, and its first piece goes on
from the current one. -/
theorem exists_splitLoop_eq (hsep : sep ≠ []) (cuts skip : Nat) (current : List Char)
    (done : List (List Char)) (cs : List Char) :
    ∃ piece pieces, Cut sep cuts (cs.drop skip) (piece :: pieces) ∧
      splitLoop sep cuts skip current done cs =
        done.reverse ++ (current.reverse ++ piece) :: pieces := by
  fun_induction splitLoop sep cuts skip current done cs with
  | case1 cuts skip current done =>
    refine ⟨[], [], ?_, by simp⟩
    rw [List.drop_nil]
    exact .last (by rwa [List.infix_nil])
  | case2 cuts skip current done c rest ih => exact ih
  | case3 current done c rest ih =>
    obtain ⟨piece, pieces, hcut, heq⟩ := ih
    have hwhole : piece = rest ∧ pieces = [] := by cases hcut <;> exact ⟨rfl, rfl⟩
    obtain ⟨rfl, rfl⟩ := hwhole
    exact ⟨c :: piece, [], .stop _, by simpa using heq⟩
  | case4 cuts current done c rest hbegins ih =>
    obtain ⟨piece, pieces, hcut, heq⟩ := ih
    have hrest : c :: rest = [] ++ sep ++ rest.drop (sep.length - 1) := by
      have hpos := List.length_pos_iff.mpr hsep
      have happend := List.prefix_iff_eq_append.mp (List.isPrefixOf_iff_prefix.mp hbegins)
      obtain ⟨n, hn⟩ : ∃ n, sep.length = n + 1 := ⟨sep.length - 1, by omega⟩
      rw [hn, List.drop_succ_cons] at happend
      rw [hn, Nat.add_sub_cancel, List.nil_append, happend]
    refine ⟨[], piece :: pieces, ?_, by simpa using heq⟩
    rw [List.drop_zero, hrest]
    exact .piece (precedes_nil hsep) hcut
  | case5 cuts current done c rest hbegins ih =>
    obtain ⟨piece, pieces, hcut, heq⟩ := ih
    refine ⟨c :: piece, pieces, hcut.cons ?_, by simpa using heq⟩
    rwa [← List.isPrefixOf_iff_prefix]

theorem cut_splitChars (hsep : sep ≠ []) (cuts : Nat) (cs : List Char) :
    Cut sep cuts cs (splitChars sep cuts cs) := by
  obtain ⟨piece, pieces, hcut, heq⟩ := exists_splitLoop_eq hsep cuts 0 [] [] cs
  rwa [splitChars, heq]

/-! ### Counting and replacing -/

/-- Where the cuts suffice, counting finds the occurrences at which splitting cuts. -/
theorem countLoop_eq (cuts skip : Nat) (current : List Char) (done : List (List Char))
    (cs : List Char)
    (hcuts : cs.length ≤ cuts) (found : Nat) :
    countLoop sep skip found cs + done.length + 1 =
      (splitLoop sep cuts skip current done cs).length + found := by
  fun_induction splitLoop sep cuts skip current done cs generalizing found with
  | case1 cuts skip current done =>
    rw [countLoop, List.length_reverse, List.length_cons]
    omega
  | case2 cuts skip current done c rest ih =>
    rw [countLoop]
    exact ih (Nat.le_of_succ_le hcuts) found
  | case3 current done c rest ih => exact absurd hcuts (Nat.not_succ_le_zero _)
  | case4 cuts current done c rest hbegins ih =>
    have hih := ih (Nat.le_of_succ_le_succ hcuts) (found + 1)
    rw [List.length_cons] at hih
    rw [countLoop, if_pos hbegins]
    omega
  | case5 cuts current done c rest hbegins ih =>
    rw [countLoop, if_neg hbegins]
    exact ih (Nat.le_of_succ_le hcuts) found

/-- What is joined ends with the last piece, and a separator before it. -/
theorem intercalate_concat (new : List Char) {pieces : List (List Char)} (hpieces : pieces ≠ [])
    (last : List Char) : new.intercalate (pieces ++ [last]) =
      new.intercalate pieces ++ new ++ last := by
  induction pieces with
  | nil => exact absurd rfl hpieces
  | cons piece pieces ih =>
    cases pieces with
    | nil => simp [List.intercalate_cons_cons, List.intercalate_singleton]
    | cons next pieces =>
      rw [List.cons_append, List.intercalate_cons_of_ne_nil (by simp), ih (List.cons_ne_nil _ _),
        List.intercalate_cons_cons]
      simp only [List.append_assoc]

/-- One more character in the last piece. -/
theorem intercalate_concat_append (new : List Char) (pieces : List (List Char))
    (xs ys : List Char) :
    new.intercalate (pieces ++ [xs ++ ys]) = new.intercalate (pieces ++ [xs]) ++ ys := by
  by_cases hpieces : pieces = []
  · simp [hpieces, List.intercalate_singleton]
  · rw [intercalate_concat new hpieces, intercalate_concat new hpieces]
    simp only [List.append_assoc]

/-- Replacing joins the pieces between which splitting cuts. What has been written so far are the
pieces so far, joined. -/
theorem replaceLoop_eq {old new : List Char} (cuts skip : Nat) (current : List Char)
    (done : List (List Char)) (cs acc : List Char) (hcuts : cs.length ≤ cuts)
    (hacc : acc.reverse = new.intercalate (done.reverse ++ [current.reverse])) :
    replaceLoop old new skip acc cs =
      new.intercalate (splitLoop old cuts skip current done cs) := by
  fun_induction splitLoop old cuts skip current done cs generalizing acc with
  | case1 cuts skip current done =>
    rw [replaceLoop, hacc, List.reverse_cons]
  | case2 cuts skip current done c rest ih =>
    rw [replaceLoop]
    exact ih _ (Nat.le_of_succ_le hcuts) hacc
  | case3 current done c rest ih => exact absurd hcuts (Nat.not_succ_le_zero _)
  | case4 cuts current done c rest hbegins ih =>
    rw [replaceLoop, if_pos hbegins]
    refine ih _ (Nat.le_of_succ_le_succ hcuts) ?_
    have hjoined : new.intercalate (done.reverse ++ [current.reverse] ++ [[]]) =
        acc.reverse ++ new := by
      rw [intercalate_concat new (by simp), List.append_nil, hacc]
    rw [List.reverseAux_eq, List.reverse_append, List.reverse_reverse, List.reverse_cons,
      List.reverse_nil, hjoined]
  | case5 cuts current done c rest hbegins ih =>
    rw [replaceLoop, if_neg hbegins]
    refine ih _ (Nat.le_of_succ_le hcuts) ?_
    rw [List.reverse_cons, List.reverse_cons, hacc, intercalate_concat_append]

/-! ### Searching -/

theorem findLoop_of_precedes (hpiece : Precedes sep piece) (passed : Nat) :
    findLoop sep passed (piece ++ sep ++ rest) = some (passed + piece.length) := by
  induction piece generalizing passed with
  | nil =>
    obtain ⟨c, sep', rfl⟩ := List.exists_cons_of_ne_nil hpiece.sep_ne_nil
    have hbegins : (c :: sep').isPrefixOf (c :: (sep' ++ rest)) = true :=
      List.isPrefixOf_iff_prefix.mpr (List.prefix_append (c :: sep') rest)
    rw [List.nil_append, List.cons_append, findLoop, if_pos hbegins]
    rfl
  | cons c piece ih =>
    have hnone : ¬ sep.isPrefixOf (c :: (piece ++ sep ++ rest)) = true := by
      rw [List.isPrefixOf_iff_prefix]
      intro hbegins
      obtain ⟨after, hafter⟩ := hbegins
      have heq : c :: piece ++ sep ++ rest = [] ++ sep ++ after := hafter.symm
      exact Nat.not_succ_le_zero _ (hpiece.length_le heq)
    have hnext : Precedes sep piece := fun hoccurs => hpiece (List.infix_cons hoccurs)
    rw [List.cons_append, List.cons_append, findLoop, if_neg hnone, ih hnext, List.length_cons,
      Nat.add_assoc, Nat.add_comm 1]

theorem findLoop_of_not_isInfix (hcs : ¬ sep <:+: cs) (passed : Nat) :
    findLoop sep passed cs = none := by
  induction cs generalizing passed with
  | nil =>
    have hsep : ¬ sep.isEmpty = true := by rwa [List.isEmpty_iff, ← List.infix_nil]
    rw [findLoop, if_neg hsep]
  | cons c cs ih =>
    rw [List.infix_cons_iff, not_or] at hcs
    rw [findLoop, if_neg (by rw [List.isPrefixOf_iff_prefix]; exact hcs.1), ih hcs.2]

/-- The first occurrence is found behind the first piece. -/
theorem Cut.findLoop_eq (h : Cut sep (cuts + 1) cs (piece :: pieces)) (passed : Nat) :
    findLoop sep passed cs = if pieces = [] then none else some (passed + piece.length) := by
  cases h with
  | last hcs => rw [findLoop_of_not_isInfix hcs, if_pos rfl]
  | piece hpiece hrest => rw [findLoop_of_precedes hpiece, if_neg hrest.ne_nil]

/-! ### Texts -/

variable {s t : String}

theorem toList_ne_nil (ht : t ≠ "") : t.toList ≠ [] := by simpa using ht

theorem splitAll_eq (t s : String) : splitAll t s = splitAtMost t s.utf8ByteSize s := by
  rw [splitAll, splitAtMost, Nat.min_self]

theorem cut_splitAtMost (ht : t ≠ "") (cuts : Nat) (s : String) :
    Cut t.toList (min cuts s.utf8ByteSize) s.toList ((splitAtMost t cuts s).map String.toList) := by
  have hmap (pieces : List (List Char)) :
      (pieces.map String.ofList).map String.toList = pieces := by
    simp [List.map_map, Function.comp_def]
  rw [splitAtMost, hmap]
  exact cut_splitChars (toList_ne_nil ht) _ _

theorem cut_splitAll (ht : t ≠ "") (s : String) :
    Cut t.toList s.utf8ByteSize s.toList ((splitAll t s).map String.toList) := by
  have hcut := cut_splitAtMost ht s.utf8ByteSize s
  rwa [Nat.min_self, ← splitAll_eq] at hcut

/-- There is one more piece than there are occurrences. -/
theorem length_splitAll (ht : t ≠ "") (s : String) :
    (splitAll t s).length = countOccurrences t s + 1 := by
  rw [countOccurrences, if_neg (by simpa using ht), splitAll, List.length_map, splitChars]
  exact (countLoop_eq s.utf8ByteSize 0 [] [] s.toList (length_toList_le_utf8ByteSize s) 0).symm

theorem countOccurrences_le (ht : t ≠ "") (s : String) : countOccurrences t s ≤ s.length := by
  have hle := (cut_splitAll ht s).length_le
  rw [List.length_map, length_splitAll ht, String.length_toList] at hle
  exact Nat.le_of_succ_le_succ hle

/-- As many pieces are split off as there are occurrences and cuts. -/
theorem length_splitAtMost (ht : t ≠ "") (cuts : Nat) (s : String) :
    (splitAtMost t cuts s).length = min cuts (countOccurrences t s) + 1 := by
  have hmin := (cut_splitAtMost ht cuts s).length_eq_min (cut_splitAll ht s)
    (length_toList_le_utf8ByteSize s)
  have hle := Nat.le_trans (countOccurrences_le ht s) (length_le_utf8ByteSize s)
  rw [List.length_map, List.length_map, length_splitAll ht, Nat.add_sub_cancel] at hmin
  rw [hmin]
  omega

/-- Splitting and joining give the text back. -/
theorem join_splitAtMost (ht : t ≠ "") (cuts : Nat) (s : String) :
    join t (splitAtMost t cuts s) = s := by
  rw [← String.toList_inj, join, String.toList_intercalate]
  exact (cut_splitAtMost ht cuts s).intercalate_eq

theorem join_splitAll (ht : t ≠ "") (s : String) : join t (splitAll t s) = s := by
  rw [splitAll_eq, join_splitAtMost ht]

/-- The first occurrence is found, which ends the first piece, or else there is only one piece. -/
theorem find?_eq (ht : t ≠ "") {first : String} {others : List String}
    (hpieces : splitAll t s = first :: others) :
    find? t s = if others = [] then none else some first.length := by
  have hcut := (cut_splitAll ht s).succ (toList_ne_nil ht) (length_toList_le_utf8ByteSize s)
  rw [hpieces, List.map_cons] at hcut
  rw [find?, hcut.findLoop_eq, Nat.zero_add, String.length_toList]
  simp only [List.map_eq_nil_iff]

/-- A text that is searched for is found where it is a part, and where it is counted. -/
theorem occursIn_eq (ht : t ≠ "") (s : String) :
    occursIn t s = decide (0 < countOccurrences t s) := by
  obtain ⟨first, others, hpieces⟩ := List.exists_cons_of_ne_nil
    (List.ne_nil_of_length_eq_add_one (length_splitAll ht s))
  have hlength := length_splitAll ht s
  rw [hpieces, List.length_cons, Nat.succ.injEq] at hlength
  rw [occursIn, find?_eq ht hpieces, ← hlength]
  cases others <;> rfl

theorem occursIn_iff_isInfix (ht : t ≠ "") (s : String) :
    occursIn t s = true ↔ t.toList <:+: s.toList := by
  have hcut := (cut_splitAll ht s).succ (toList_ne_nil ht) (length_toList_le_utf8ByteSize s)
  rw [occursIn_eq ht, decide_eq_true_iff, hcut.isInfix_iff, List.length_map, length_splitAll ht]
  omega

/-- No occurrence is left in a piece. -/
theorem occursIn_of_mem_splitAll (ht : t ≠ "") {p : String} (hp : p ∈ splitAll t s) :
    occursIn t p = false := by
  rw [← Bool.not_eq_true, occursIn_iff_isInfix ht]
  exact (cut_splitAll ht s).not_isInfix (toList_ne_nil ht) (length_toList_le_utf8ByteSize s) _
    (List.mem_map_of_mem hp)

/-! ### Replacing -/

/-- Replacing joins the pieces between the occurrences. -/
theorem replace_eq (ht : t ≠ "") (u s : String) : replace t u s = join u (splitAll t s) := by
  have hreplace : replaceLoop t.toList u.toList 0 [] s.toList = u.toList.intercalate _ :=
    replaceLoop_eq s.utf8ByteSize 0 [] [] s.toList [] (length_toList_le_utf8ByteSize s) rfl
  have hmap (pieces : List (List Char)) :
      (pieces.map String.ofList).map String.toList = pieces := by
    simp [List.map_map, Function.comp_def]
  rw [replace, if_neg (by simpa using ht), hreplace, ← String.toList_inj, join,
    String.toList_intercalate, splitAll, hmap, String.toList_ofList, splitChars]

/-- What replacing takes away are the occurrences, and what it adds is as many times the new
text. -/
theorem AddsUp.replace {size : String → Nat} (hsize : AddsUp size) (old new s : String) :
    size (replace old new s) + countOccurrences old s * size old =
      size s + countOccurrences old s * size new := by
  by_cases hold : old = ""
  · subst hold
    have hcount : countOccurrences "" s = s.length + 1 := rfl
    have hreplace : Text.replace "" new s =
        new ++ String.join (s.toList.map fun c => String.singleton c ++ new) :=
      String.join_cons
    rw [hcount, hreplace, hsize, hsize.singletons, hsize.empty, Nat.mul_zero, Nat.succ_mul]
    omega
  · have hjoin := hsize.join old (splitAll old s)
    rw [join_splitAll hold, length_splitAll hold, Nat.add_sub_cancel, Nat.mul_comm] at hjoin
    rw [replace_eq hold, hsize.join, length_splitAll hold, Nat.add_sub_cancel, hjoin,
      Nat.mul_comm (size new)]
    omega

/-- Each occurrence adds at most the text that replaces it. -/
theorem length_replace_le (old new s : String) :
    (replace old new s).length ≤ s.length + countOccurrences old s * new.length :=
  addsUp_length.replace old new s ▸ Nat.le_add_right _ _

/-! ### Separators of one character -/

/-- Some pieces before others end with a separator each. -/
theorem intercalate_append (x : Char) (pieces : List (List Char)) {others : List (List Char)}
    (hothers : others ≠ []) :
    [x].intercalate (pieces ++ others) =
      (pieces.map (· ++ [x])).flatten ++ [x].intercalate others := by
  induction pieces with
  | nil => rfl
  | cons p pieces ih =>
    obtain ⟨q, rest, hcons⟩ := List.exists_cons_of_ne_nil
      (List.append_ne_nil_of_right_ne_nil pieces hothers)
    rw [List.cons_append, hcons, List.intercalate_cons_cons, ← hcons, ih, List.map_cons,
      List.flatten_cons]
    simp only [List.append_assoc]

theorem length_splitOn (x : Char) (cs : List Char) : (cs.splitOn x).length = cs.count x + 1 := by
  induction cs with
  | nil => rfl
  | cons c cs ih =>
    rw [List.splitOn] at ih ⊢
    rw [List.splitOnP_cons_eq_if_modifyHead, List.count_cons]
    split_ifs
    · rw [List.length_cons, ih]
    · rw [List.length_modifyHead, ih, Nat.add_zero]

theorem not_mem_of_mem_splitOn {x : Char} {cs : List Char} (h : piece ∈ cs.splitOn x) :
    x ∉ piece := by
  induction cs generalizing piece with
  | nil =>
    rw [List.splitOn, List.splitOnP_nil, List.mem_singleton] at h
    exact h ▸ List.not_mem_nil
  | cons c cs ih =>
    rw [List.splitOn] at ih h
    rw [List.splitOnP_cons_eq_if_modifyHead] at h
    obtain ⟨first, others, hcons⟩ := List.exists_cons_of_ne_nil (List.splitOnP_ne_nil (· == x) cs)
    rw [hcons] at ih h
    split_ifs at h with hc
    · rcases List.mem_cons.mp h with rfl | h
      · exact List.not_mem_nil
      · exact ih h
    · rw [List.modifyHead_cons] at h
      rcases List.mem_cons.mp h with rfl | h
      · rw [List.mem_cons, not_or]
        exact ⟨fun h => hc (beq_iff_eq.mpr h.symm), ih List.mem_cons_self⟩
      · exact ih (List.mem_cons_of_mem _ h)

end NoteShell.Text
