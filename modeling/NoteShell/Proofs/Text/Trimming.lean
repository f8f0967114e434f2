import Mathlib.Data.List.TakeWhile
import NoteShell.Text.Trim

/-!
# Trimmed texts

A trimmed text is what stands between the blanks at the ends of a text.

## Main results

* `trimChars_append_blanks` : blanks at the ends do not matter.
* `exists_blanks` : a text is its trimmed text with blanks around it.
* `trimChars_eq_self` : a text without blanks at its ends is trimmed already.
-/

namespace NoteShell.Text

variable {before after cs : List Char}

theorem dropWhile_of_head {p : Char → Bool} (h : ∀ c ∈ cs.head?, p c = false) :
    cs.dropWhile p = cs := by
  cases cs with
  | nil => rfl
  | cons c cs => rw [List.dropWhile_cons_of_neg (by simpa using h c rfl)]

theorem of_mem_head?_dropWhile {p : Char → Bool} : ∀ c ∈ (cs.dropWhile p).head?, p c = false := by
  intro c hc
  have hnot := List.head?_dropWhile_not p cs
  rw [hc] at hnot
  exact hnot

theorem dropEndWhile_of_getLast {p : Char → Bool} (h : ∀ c ∈ cs.getLast?, p c = false) :
    dropEndWhile p cs = cs := by
  rw [dropEndWhile, dropWhile_of_head, List.reverse_reverse]
  rwa [List.head?_reverse]

/-- A text without blanks at its ends is trimmed already. -/
theorem trimChars_eq_self (hhead : ∀ c ∈ cs.head?, isBlank c = false)
    (hlast : ∀ c ∈ cs.getLast?, isBlank c = false) : trimChars cs = cs := by
  rw [trimChars, dropWhile_of_head hhead, dropEndWhile_of_getLast hlast]

/-- A text without blank space is left alone. -/
theorem trim_of_forall {s : String} (hs : ∀ c ∈ s.toList, isBlank c = false) : trim s = s := by
  have htrim := trimChars_eq_self (fun c hc => hs c (List.mem_of_mem_head? hc))
    fun c hc => hs c (List.mem_of_mem_getLast? hc)
  rw [trim, trimWhile, ← trimChars, htrim, String.ofList_toList]

theorem isBlank_of_isDigit {c : Char} (hc : c.isDigit = true) : isBlank c = false := by
  simp only [Char.isDigit, Bool.and_eq_true, decide_eq_true_eq, UInt32.le_iff_toNat_le] at hc
  simp only [isBlank, Bool.or_eq_false_iff, Bool.and_eq_false_iff, decide_eq_false_iff_not,
    beq_eq_false_iff_ne]
  have hn : 48 ≤ c.toNat ∧ c.toNat ≤ 57 := hc
  omega

theorem dropEndWhile_append_of_pos {p : Char → Bool} (hafter : ∀ c ∈ after, p c = true) :
    dropEndWhile p (cs ++ after) = dropEndWhile p cs := by
  rw [dropEndWhile, List.reverse_append, List.dropWhile_append_of_pos, dropEndWhile]
  exact fun c hc => hafter c (List.mem_reverse.mp hc)

/-- Blanks around a text are trimmed away. -/
theorem trimChars_append_blanks (hbefore : ∀ c ∈ before, isBlank c = true)
    (hafter : ∀ c ∈ after, isBlank c = true) :
    trimChars (before ++ cs ++ after) = trimChars cs := by
  rw [trimChars, List.append_assoc, List.dropWhile_append_of_pos hbefore, List.dropWhile_append]
  split_ifs with hblank
  · have hall : after.dropWhile isBlank = [] := List.dropWhile_eq_nil_iff.mpr hafter
    rw [trimChars, hall, List.isEmpty_iff.mp hblank]
  · rw [dropEndWhile_append_of_pos hafter, trimChars]

/-- A text is its trimmed text with blanks around it. -/
theorem exists_blanks (cs : List Char) :
    ∃ before after, cs = before ++ trimChars cs ++ after ∧
      (∀ c ∈ before, isBlank c = true) ∧ (∀ c ∈ after, isBlank c = true) ∧
      (∀ c ∈ (trimChars cs).head?, isBlank c = false) ∧
      ∀ c ∈ (trimChars cs).getLast?, isBlank c = false := by
  have hsplit (xs : List Char) :
      xs = dropEndWhile isBlank xs ++ (xs.reverse.takeWhile isBlank).reverse := by
    rw [dropEndWhile, ← List.reverse_append, List.takeWhile_append_dropWhile, List.reverse_reverse]
  refine ⟨cs.takeWhile isBlank, ((cs.dropWhile isBlank).reverse.takeWhile isBlank).reverse, ?_,
    fun c hc => List.mem_takeWhile_imp hc, fun c hc => ?_, fun c hc => ?_, fun c hc => ?_⟩
  · rw [List.append_assoc, trimChars, ← hsplit, List.takeWhile_append_dropWhile]
  · exact List.mem_takeWhile_imp (List.mem_reverse.mp hc)
  · have htrim : dropEndWhile isBlank (cs.dropWhile isBlank) = trimChars cs := rfl
    have hmem : c ∈ (cs.dropWhile isBlank).head? := by
      rw [hsplit (cs.dropWhile isBlank), List.head?_append, htrim, hc]
      rfl
    exact of_mem_head?_dropWhile c hmem
  · rw [trimChars, dropEndWhile, List.getLast?_reverse] at hc
    exact of_mem_head?_dropWhile c hc

end NoteShell.Text
