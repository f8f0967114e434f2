import Mathlib.Data.Bool.AllAny
import Mathlib.Data.List.TakeWhile
import NoteShell.Grammar.Literal

/-!
# What a number is read from

A number is read from the front of a text and takes a character or more of it. All that it takes are
digits and letters, underscores, points and signs, so that neither a bracket nor the end of a line
stands in a number. It is an integer or a float, whichever way it is written.

## Main definitions

* `isNumberPart` : the characters that numbers are made of.
* `closeDecimal` : a decimal number whose whole part and fraction have been found.

## Main results

* `kind_scanNumber` : what a number is scanned as.
* `exists_used_of_scanNumber` : what a number takes.
-/

namespace NoteShell.Grammar

open NoteShell.Decimal NoteShell.Text

variable {cs rest : List Char} {k : TokenKind}

/-- The characters that numbers are made of: digits and letters, underscores, points and signs. -/
def isNumberPart (c : Char) : Bool := (digitValue? c).isSome || ['_', '.', '+', '-'].contains c

theorem isNumberPart_of_takeWhile {p : Char → Bool} (hp : ∀ c, p c = true → isNumberPart c = true) :
    ∀ c ∈ cs.takeWhile p, isNumberPart c = true :=
  fun c hc => hp c (List.mem_takeWhile_imp hc)

theorem isNumberPart_of_digitOf? {base : Nat} {c : Char}
    (h : ((digitOf? base c).isSome || c == '_') = true) : isNumberPart c = true := by
  rw [Bool.or_eq_true, beq_iff_eq, digitOf?] at h
  rcases h with h | rfl
  · obtain ⟨d, hd⟩ := Option.isSome_iff_exists.mp h
    rw [isNumberPart, (Option.filter_eq_some_iff.mp hd).1]
    rfl
  · rfl

theorem isNumberPart_of_isDecimalPart {c : Char} (h : isDecimalPart c = true) :
    isNumberPart c = true := by
  rw [isDecimalPart, Bool.or_eq_true, beq_iff_eq] at h
  rcases h with h | rfl
  · have hrange : ('0' ≤ c && c ≤ '9') = true := by
      simpa only [Char.isDigit, Char.le_def, Bool.and_eq_true, decide_eq_true_eq] using h
    rw [isNumberPart, digitValue?, if_pos hrange]
    rfl
  · rfl

theorem exists_used_of_scanExponent (cs : List Char) :
    ∃ used, cs = used ++ (scanExponent cs).2 ∧ ∀ c ∈ used, isNumberPart c = true := by
  have hnone : ∃ used, cs = used ++ cs ∧ ∀ c ∈ used, isNumberPart c = true := ⟨[], rfl, by simp⟩
  unfold scanExponent
  split
  · next mark rest =>
    split_ifs with hmark
    · split
      next sign digits hdigits =>
      have hsign : rest = sign ++ digits ∧ ∀ c ∈ mark :: sign, isNumberPart c = true := by
        split at hdigits <;> cases hdigits <;> rcases hmark with rfl | rfl <;>
          exact ⟨rfl, List.all_iff_forall_prop.mp (by decide)⟩
      split
      · next d tail =>
        split_ifs
        · refine ⟨mark :: sign ++ (d :: tail).takeWhile isDecimalPart, ?_, ?_⟩
          · rw [List.append_assoc, List.takeWhile_append_dropWhile, hsign.1]
            rfl
          · exact List.forall_mem_append.mpr
              ⟨hsign.2, isNumberPart_of_takeWhile fun _ => isNumberPart_of_isDecimalPart⟩
        · exact hnone
      · exact hnone
    · exact hnone
  · exact hnone

/-- What is made of a decimal number whose whole part and fraction have been found. -/
def closeDecimal (whole fraction rest : List Char) : Except Fault (TokenKind × List Char) := do
  checkNumberEnd (scanExponent rest).2
  if fraction.isEmpty && (scanExponent rest).1.isEmpty then
    match readInt64? 10 (withoutUnderscores whole) with
    | some n => return (.int n, (scanExponent rest).2)
    | none => .error .integerTooLarge
  else
    match readFloat? (withoutUnderscores (whole ++ fraction ++ (scanExponent rest).1)) with
    | some x => return (.float x, (scanExponent rest).2)
    | none => .error .invalidDecimal

/-- A decimal number has a fraction where a point follows its whole part. -/
theorem scanDecimal_cases (cs : List Char) :
    (∃ tail, cs.dropWhile isDecimalPart = '.' :: tail ∧ scanDecimal cs =
        closeDecimal (cs.takeWhile isDecimalPart) ('.' :: tail.takeWhile isDecimalPart)
          (tail.dropWhile isDecimalPart)) ∨
      (∀ tail, cs.dropWhile isDecimalPart ≠ '.' :: tail) ∧ scanDecimal cs =
        closeDecimal (cs.takeWhile isDecimalPart) [] (cs.dropWhile isDecimalPart) := by
  rw [scanDecimal]
  dsimp only
  split
  · next tail htail => exact .inl ⟨tail, htail, rfl⟩
  · next hpoint => exact .inr ⟨hpoint, rfl⟩

/-- A decimal number is an integer or a float, and it leaves what its exponent leaves. -/
theorem closeDecimal_eq_ok {whole fraction tail : List Char}
    (h : closeDecimal whole fraction tail = .ok (k, rest)) :
    rest = (scanExponent tail).2 ∧ ((∃ n, k = .int n) ∨ ∃ x, k = .float x) := by
  simp only [closeDecimal, bind, Except.bind] at h
  split at h
  · cases h
  · split_ifs at h <;> split at h <;> cases h
    · exact ⟨rfl, .inl ⟨_, rfl⟩⟩
    · exact ⟨rfl, .inr ⟨_, rfl⟩⟩

/-- A decimal number takes its first character: a digit is part of its whole part, and a point
begins its fraction. -/
theorem exists_used_of_scanDecimal {c : Char} (hc : c.isDigit = true ∨ c = '.')
    (h : scanDecimal (c :: cs) = .ok (k, rest)) :
    ∃ used, cs = used ++ rest ∧ ∀ d ∈ c :: used, isNumberPart d = true := by
  have hparts (cs : List Char) : ∀ d ∈ cs.takeWhile isDecimalPart, isNumberPart d = true :=
    isNumberPart_of_takeWhile fun _ => isNumberPart_of_isDecimalPart
  have hsplit := (List.takeWhile_append_dropWhile (p := isDecimalPart) (l := c :: cs)).symm
  have hused : ∃ used, used ≠ [] ∧ c :: cs = used ++ rest ∧ ∀ d ∈ used, isNumberPart d = true := by
    rcases scanDecimal_cases (c :: cs) with ⟨tail, htail, heq⟩ | ⟨hpoint, heq⟩ <;>
      rw [heq] at h <;> obtain rfl := (closeDecimal_eq_ok h).1
    · obtain ⟨used, hused, husedParts⟩ := exists_used_of_scanExponent (tail.dropWhile isDecimalPart)
      refine ⟨(c :: cs).takeWhile isDecimalPart ++ '.' :: (tail.takeWhile isDecimalPart ++ used),
        by simp, ?_, ?_⟩
      · rw [List.append_assoc, List.cons_append, List.append_assoc, ← hused,
          List.takeWhile_append_dropWhile, ← htail]
        exact hsplit
      · refine List.forall_mem_append.mpr ⟨hparts _, List.forall_mem_cons.mpr ⟨by decide, ?_⟩⟩
        exact List.forall_mem_append.mpr ⟨hparts tail, husedParts⟩
    · have hdigit : isDecimalPart c = true := by
        rcases hc with hdigit | rfl
        · rw [isDecimalPart, hdigit, Bool.true_or]
        · exact absurd rfl (hpoint cs)
      obtain ⟨used, hused, husedParts⟩ :=
        exists_used_of_scanExponent ((c :: cs).dropWhile isDecimalPart)
      refine ⟨(c :: cs).takeWhile isDecimalPart ++ used, ?_, ?_,
        List.forall_mem_append.mpr ⟨hparts _, husedParts⟩⟩
      · rw [List.takeWhile_cons_of_pos hdigit]
        exact List.cons_ne_nil _ _
      · rw [List.append_assoc, ← hused]
        exact hsplit
  obtain ⟨used, hne, heq, husedParts⟩ := hused
  obtain ⟨d, used, rfl⟩ := List.exists_cons_of_ne_nil hne
  obtain ⟨rfl, rfl⟩ := List.cons.inj heq
  exact ⟨used, rfl, husedParts⟩

/-- An integer in another base takes its digits. -/
theorem scanRadix_eq_ok {base : Nat} (h : scanRadix base cs = .ok (k, rest)) :
    (∃ n, k = .int n) ∧ ∃ used, cs = used ++ rest ∧ ∀ c ∈ used, isNumberPart c = true := by
  rw [scanRadix] at h
  simp only [bind, Except.bind] at h
  split at h
  · cases h
  · split at h
    · cases h
    · cases h
      exact ⟨⟨_, rfl⟩, _, List.takeWhile_append_dropWhile.symm,
        isNumberPart_of_takeWhile fun _ => isNumberPart_of_digitOf?⟩

/-- A number is scanned as an integer or as a float. -/
theorem kind_scanNumber (h : scanNumber cs = .ok (k, rest)) :
    (∃ n, k = .int n) ∨ ∃ x, k = .float x := by
  have hdecimal {cs : List Char} (h : scanDecimal cs = .ok (k, rest)) :
      (∃ n, k = .int n) ∨ ∃ x, k = .float x := by
    rcases scanDecimal_cases cs with ⟨_, -, heq⟩ | ⟨-, heq⟩ <;> rw [heq] at h <;>
      exact (closeDecimal_eq_ok h).2
  unfold scanNumber at h
  split at h
  · split at h
    · exact .inl (scanRadix_eq_ok h).1
    · exact hdecimal h
  · exact hdecimal h

/-- What a number takes. -/
theorem exists_used_of_scanNumber {c : Char} (hc : c.isDigit = true ∨ c = '.')
    (h : scanNumber (c :: cs) = .ok (k, rest)) :
    ∃ used, cs = used ++ rest ∧ ∀ d ∈ c :: used, isNumberPart d = true := by
  unfold scanNumber at h
  split at h
  · next mark tail heq =>
    cases heq
    split at h
    · next base hbase =>
      obtain ⟨-, used, rfl, hparts⟩ := scanRadix_eq_ok h
      have hmark : isNumberPart mark = true := by
        unfold radixOf? at hbase
        split at hbase <;> first | rfl | cases hbase
      exact ⟨mark :: used, rfl, List.forall_mem_cons.mpr
        ⟨by decide, List.forall_mem_cons.mpr ⟨hmark, hparts⟩⟩⟩
    · exact exists_used_of_scanDecimal hc h
  · exact exists_used_of_scanDecimal hc h

end NoteShell.Grammar
