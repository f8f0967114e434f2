import Mathlib.Tactic.SplitIfs
import NoteShell.Proofs.Lexing.Margins
import NoteShell.Proofs.Text.Utf8
import NoteShell.Proofs.Values.IntegerTexts

/-!
# Texts between quotes

A text between quotes is read from left to right, an escape at a time, up to the first quote of its
kind that belongs to no escape. Reading it does not depend on the line it stands on, and the ends of
lines that it takes are counted.

An escape is a backslash with a letter, or with a letter and the hexadecimal digits of a character;
any other backslash is kept together with the character after it. In the place of the first digit a
plus sign is taken as well.

## Main definitions

* `IsCode` : the digits of a character.
* `Decodes` : what is written between quotes stands for a text.

## Main results

* `scanText_lines` : the ends of lines in a text.
* `escapedCodePoint?_eq_some_iff` : the digits of an escape.
* `scanText_of_decodes`, `exists_decodes` : what is read between quotes on one line.
* `quoted_line_decodes` : the token of a text on one line.
-/

namespace NoteShell.Grammar

open NoteShell.Decimal NoteShell.Script NoteShell.Text

variable {cs rest : List Char}

/-! ### Ends of lines -/

/-- The digits of an escape end before the end of the line. -/
theorem newline_notMem_digits {width : Nat} {d : Char} (h : escapedCodePoint? width cs = some d) :
    '\n' ∉ cs.take width := by
  intro hmem
  have hends : EndsDigits '\n' := ⟨by decide, by decide, by decide⟩
  rw [escapedCodePoint?, intOfDigits?_eq_none hmem hends] at h
  dsimp only at h
  split_ifs at h
  split at h <;> cases h

/-- An escape that does not begin with the end of a line takes none. -/
theorem newline_notMem_escape {c : Char} (hc : c ≠ '\n') (cs : List Char) :
    '\n' ∉ (c :: cs).take (decodeEscape c cs).2 := by
  have hone : '\n' ∉ (c :: cs).take 1 := by simpa using Ne.symm hc
  unfold decodeEscape
  split
  case h_8 | h_9 =>
    split
    · next h => exact List.not_mem_cons_of_ne_of_not_mem (by decide) (newline_notMem_digits h)
    · exact hone
  all_goals exact hone

/-- What is read between quotes does not depend on the line, and the ends of lines that are taken
are counted. The characters that are skipped have been counted before. -/
theorem scanText_lines {q : Quotes} (hq : q.mark ≠ '\n') {skip line line' : Nat} {acc : List Char}
    {s : String} (h : scanText q skip line acc cs = .ok (s, line', rest)) :
    ∃ used, cs = used ++ rest ∧ skip ≤ used.length ∧ ∀ m,
      scanText q skip m acc cs = .ok (s, m + (used.drop skip).count '\n', rest) := by
  fun_induction scanText q skip line acc cs with
  | case1 | case5 | case6 => cases h
  | case2 skip line acc c cs ih =>
    obtain ⟨used, rfl, hskip, hread⟩ := ih h
    exact ⟨c :: used, rfl, Nat.succ_le_succ hskip, fun m => scanText_skip.trans (hread m)⟩
  | case3 line acc c cs hclose =>
    obtain ⟨rfl, -, hrest⟩ : _ = s ∧ _ = line' ∧ _ = rest := by simpa using h
    obtain ⟨rfl, htriple⟩ := hclose
    cases hq' : q.triple with
    | false =>
      rw [hq', if_neg Bool.false_ne_true] at hrest
      refine ⟨[q.mark], by rw [hrest]; rfl, Nat.zero_le _, fun m => ?_⟩
      rw [scanText_closes ⟨rfl, htriple⟩, hq', if_neg Bool.false_ne_true, hrest]
      simp [hq]
    | true =>
      rw [hq', if_pos rfl] at hrest
      have hfront : [q.mark, q.mark] <+: cs := by simpa [hq'] using htriple
      obtain ⟨tail, rfl⟩ := hfront
      obtain rfl : tail = rest := hrest
      refine ⟨[q.mark, q.mark, q.mark], rfl, Nat.zero_le _, fun m => ?_⟩
      rw [scanText_closes ⟨rfl, htriple⟩, hq']
      simp [hq]
  | case4 line acc cs htriple hclose ih =>
    obtain ⟨used, rfl, -, hread⟩ := ih h
    refine ⟨'\n' :: used, rfl, Nat.zero_le _, fun m => ?_⟩
    rw [scanText_newline hclose htriple, hread, List.drop_zero, List.drop_zero,
      List.count_cons_self, Nat.add_right_comm, Nat.add_assoc]
  | case7 line acc next cs line₁ hraw _ hclose ih =>
    obtain ⟨used, hused, hskip, hread⟩ := ih h
    obtain ⟨d, used, rfl⟩ := List.exists_cons_of_length_pos hskip
    obtain ⟨rfl, rfl⟩ := List.cons.inj hused
    refine ⟨'\\' :: next :: used, rfl, Nat.zero_le _, fun m => ?_⟩
    rw [scanText_raw hclose hraw, hread]
    by_cases hnext : next = '\n'
    · subst hnext
      rw [if_pos rfl, Nat.add_right_comm, Nat.add_assoc]
      simp
    · rw [if_neg hnext]
      simp [hnext]
  | case8 line acc cs hraw _ line₁ hclose ih =>
    obtain ⟨used, hused, hskip, hread⟩ := ih h
    obtain ⟨d, used, rfl⟩ := List.exists_cons_of_length_pos hskip
    obtain ⟨rfl, rfl⟩ := List.cons.inj hused
    refine ⟨'\\' :: '\n' :: used, rfl, Nat.zero_le _, fun m => ?_⟩
    rw [scanText_joinedLine hclose (Bool.not_eq_true _ ▸ hraw), hread, Nat.add_right_comm,
      Nat.add_assoc]
    simp
  | case9 line acc next cs line₁ hraw hnext image taken hdecode _ hclose ih =>
    obtain ⟨used, hused, hskip, hread⟩ := ih h
    refine ⟨'\\' :: used, congrArg _ hused, Nat.zero_le _, fun m => ?_⟩
    have hnone : '\n' ∉ used.take taken := by
      have hescape := newline_notMem_escape hnext cs
      rwa [hdecode, hused, List.take_append_of_le_length hskip] at hescape
    have hcount : ('\\' :: used).count '\n' = (used.drop taken).count '\n' := by
      rw [List.count_cons_of_ne (by decide)]
      conv_lhs => rw [← List.take_append_drop taken used]
      rw [List.count_append, List.count_eq_zero.mpr hnone, Nat.zero_add]
    rw [scanText_escape hclose (Bool.not_eq_true _ ▸ hraw) hnext, hdecode, List.drop_zero, hcount]
    exact hread m
  | case10 line acc c cs hclose hnewline hback ih =>
    obtain ⟨used, rfl, -, hread⟩ := ih h
    refine ⟨c :: used, rfl, Nat.zero_le _, fun m => ?_⟩
    rw [scanText_plain hclose hnewline hback, hread]
    simp [hnewline]

/-! ### Escapes -/

/-- The escapes that are a single letter, with the characters that they stand for. -/
def letterEscapes : List (Char × Char) :=
  [('n', '\n'), ('t', '\t'), ('r', '\r'), ('0', '\x00'), ('\\', '\\'), ('\'', '\''), ('"', '"')]

/-- The letters of the escapes with digits, and the number of the digits. -/
def codeEscapes : List (Char × Nat) := [('x', 2), ('u', 4)]

/-- The hexadecimal digits, `width` of them, name the character. Where it may be signed, a plus sign
stands in the place of the first digit. -/
def IsCode (signed : Bool) (width : Nat) (digits : List Char) (c : Char) : Prop :=
  digits.length = width ∧ (AreDigits 16 digits c.toNat ∨
    signed = true ∧ ∃ ds, digits = '+' :: ds ∧ AreDigits 16 ds c.toNat)

/-- What is written between quotes stands for a text: every character for itself, apart from the
quote and from backslashes, which begin escapes. A backslash that begins none of the escapes is kept
together with the character after it. -/
inductive Decodes (signed : Bool) (mark : Char) : (body text : List Char) → Prop
  | nil : Decodes signed mark [] []
  | plain {c : Char} {body text : List Char} (hmark : c ≠ mark) (hback : c ≠ '\\')
    (h : Decodes signed mark body text) : Decodes signed mark (c :: body) (c :: text)
  | letter {c d : Char} {body text : List Char} (hc : (c, d) ∈ letterEscapes)
    (h : Decodes signed mark body text) : Decodes signed mark ('\\' :: c :: body) (d :: text)
  | code {c d : Char} {width : Nat} {digits body text : List Char} (hc : (c, width) ∈ codeEscapes)
    (hd : IsCode signed width digits d) (h : Decodes signed mark body text) :
    Decodes signed mark ('\\' :: c :: (digits ++ body)) (d :: text)
  | kept {c : Char} {body text : List Char} (hletter : ∀ d, (c, d) ∉ letterEscapes)
    (hcode : ∀ width digits d rest, (c, width) ∈ codeEscapes → body = digits ++ rest →
      ¬ IsCode signed width digits d)
    (h : Decodes signed mark body text) : Decodes signed mark ('\\' :: c :: body) ('\\' :: c :: text)

variable {c d : Char} {width : Nat} {digits body text : List Char}

theorem not_areDigits_cons {n : Nat} (hc : digitOf? 16 c = none) : ¬ AreDigits 16 (c :: cs) n := by
  rintro ⟨ds, hds, -⟩
  obtain ⟨d, -, hd, -, -⟩ := List.forall₂_cons_left_iff.mp hds
  rw [← digitOf?_eq_some_iff, hc] at hd
  cases hd

theorem IsCode.isNumeral (h : IsCode true width digits d) (hwidth : 1 < width) :
    IsNumeral 16 digits d.toNat ∧ ∀ tail, digits ≠ '-' :: tail := by
  obtain ⟨hlength, hdigits | ⟨-, ds, rfl, hdigits⟩⟩ := h
  · refine ⟨.unsigned ?_ hdigits, ?_⟩
    · rintro rfl
      rw [List.length_nil] at hlength
      omega
    · rintro tail rfl
      exact not_areDigits_cons (by decide) hdigits
  · refine ⟨.plus ?_ hdigits, nofun⟩
    rintro rfl
    rw [List.length_singleton] at hlength
    omega

theorem isCode_of_isNumeral {i : Int} (h : IsNumeral 16 digits i) (hlength : digits.length = width)
    (hminus : ∀ tail, digits ≠ '-' :: tail) (hd : i.toNat = d.toNat) :
    IsCode true width digits d := by
  cases h with
  | unsigned hne h => exact ⟨hlength, .inl (hd ▸ h)⟩
  | plus hne h => exact ⟨hlength, .inr ⟨rfl, _, rfl, hd ▸ h⟩⟩
  | minus => exact absurd rfl (hminus _)

/-- The digits of an escape are read as the character that they name. -/
theorem escapedCodePoint?_eq_some_iff (hwidth : 1 < width) :
    escapedCodePoint? width cs = some d ↔
      ∃ digits rest, cs = digits ++ rest ∧ IsCode true width digits d := by
  constructor
  · intro h
    refine ⟨cs.take width, cs.drop width, (List.take_append_drop width cs).symm, ?_⟩
    rw [escapedCodePoint?] at h
    split_ifs at h with hlength
    split at h
    · cases h
    · next hminus =>
      split at h
      · next i hi =>
        split_ifs at h with hvalid
        cases h
        exact isCode_of_isNumeral (intOfDigits?_eq_some_iff.mp hi) hlength hminus
          (Text.toNat_ofNat hvalid).symm
      · cases h
  · rintro ⟨digits, rest, rfl, hcode⟩
    obtain ⟨hnumeral, hminus⟩ := hcode.isNumeral hwidth
    have htake : (digits ++ rest).take width = digits := by rw [← hcode.1, List.take_left]
    have hvalid : d.toNat.isValidChar := d.valid
    rw [escapedCodePoint?, htake, if_pos hcode.1]
    split
    · exact absurd rfl (hminus _)
    · rw [intOfDigits?_eq_some_iff.mpr hnumeral]
      dsimp only
      rw [Int.toNat_natCast, if_pos hvalid, Char.ofNat_toNat]

theorem one_lt_of_mem_codeEscapes (h : (c, width) ∈ codeEscapes) : 1 < width := by
  simp only [codeEscapes, List.mem_cons, Prod.mk.injEq, List.not_mem_nil, or_false] at h
  omega

/-! ### What an escape stands for -/

theorem decodeEscape_letter (h : (c, d) ∈ letterEscapes) (cs : List Char) :
    decodeEscape c cs = ([d], 1) := by
  simp only [letterEscapes, List.mem_cons, Prod.mk.injEq, List.not_mem_nil, or_false] at h
  rcases h with ⟨rfl, rfl⟩ | ⟨rfl, rfl⟩ | ⟨rfl, rfl⟩ | ⟨rfl, rfl⟩ | ⟨rfl, rfl⟩ | ⟨rfl, rfl⟩
    | ⟨rfl, rfl⟩ <;>
    rfl

theorem decodeEscape_code (h : (c, width) ∈ codeEscapes)
    (hd : escapedCodePoint? width cs = some d) :
    decodeEscape c cs = ([d], width + 1) := by
  simp only [codeEscapes, List.mem_cons, Prod.mk.injEq, List.not_mem_nil, or_false] at h
  rcases h with ⟨rfl, rfl⟩ | ⟨rfl, rfl⟩ <;> simp only [decodeEscape, hd]

theorem decodeEscape_kept (hletter : ∀ d, (c, d) ∉ letterEscapes)
    (hcode : ∀ width, (c, width) ∈ codeEscapes → escapedCodePoint? width cs = none) :
    decodeEscape c cs = (['\\', c], 1) := by
  unfold decodeEscape
  split
  case h_8 => rw [hcode 2 (by decide)]
  case h_9 => rw [hcode 4 (by decide)]
  case h_10 => rfl
  all_goals simp [letterEscapes] at hletter

/-- An escape is a letter, or a letter with digits, or no escape. -/
theorem decodeEscape_cases (c : Char) (cs : List Char) :
    (∃ d, (c, d) ∈ letterEscapes ∧ decodeEscape c cs = ([d], 1)) ∨
      (∃ width digits d rest, (c, width) ∈ codeEscapes ∧ cs = digits ++ rest ∧
        IsCode true width digits d ∧ decodeEscape c cs = ([d], width + 1)) ∨
      (∀ d, (c, d) ∉ letterEscapes) ∧
        (∀ width digits d rest, (c, width) ∈ codeEscapes → cs = digits ++ rest →
          ¬ IsCode true width digits d) ∧ decodeEscape c cs = (['\\', c], 1) := by
  by_cases hletter : ∃ d, (c, d) ∈ letterEscapes
  · obtain ⟨d, hd⟩ := hletter
    exact .inl ⟨d, hd, decodeEscape_letter hd cs⟩
  by_cases hcode : ∃ width d, (c, width) ∈ codeEscapes ∧ escapedCodePoint? width cs = some d
  · obtain ⟨width, d, hc, hd⟩ := hcode
    obtain ⟨digits, rest, hcs, hdigits⟩ :=
      (escapedCodePoint?_eq_some_iff (one_lt_of_mem_codeEscapes hc)).mp hd
    exact .inr (.inl ⟨width, digits, d, rest, hc, hcs, hdigits, decodeEscape_code hc hd⟩)
  · push Not at hletter hcode
    refine .inr (.inr ⟨hletter, fun width digits d rest hc hcs hdigits => ?_, ?_⟩)
    · exact hcode width d hc
        ((escapedCodePoint?_eq_some_iff (one_lt_of_mem_codeEscapes hc)).mpr
          ⟨digits, rest, hcs, hdigits⟩)
    · exact decodeEscape_kept hletter fun width hc =>
        Option.eq_none_iff_forall_ne_some.mpr fun d => hcode width d hc

/-! ### Texts on one line -/

section Line

variable {mark : Char}

/-- The quotes around a text of one line. -/
def lineQuotes (mark : Char) : Quotes := ⟨mark, false, false⟩

theorem endsDigits_of_quote (hmark : mark = '\'' ∨ mark = '"') : EndsDigits mark := by
  rcases hmark with rfl | rfl <;> exact ⟨by decide, by decide, by decide⟩

theorem not_closes_back (hmark : mark = '\'' ∨ mark = '"') (cs : List Char) :
    ¬ (lineQuotes mark).Closes '\\' cs := by
  rintro ⟨hback, -⟩
  rcases hmark with rfl | rfl <;> exact absurd hback (by decide)

/-- An escape is read as its image, and what it takes is left out. -/
theorem scanText_escape_append (hmark : mark = '\'' ∨ mark = '"') (used : List Char)
    {image tail : List Char} (hnext : c ≠ '\n')
    (h : decodeEscape c (used ++ tail) = (image, used.length + 1)) (line : Nat) (acc : List Char) :
    scanText (lineQuotes mark) 0 line acc ('\\' :: c :: (used ++ tail)) =
      scanText (lineQuotes mark) 0 line (image.reverse ++ acc) tail := by
  have hlength : used.length + 1 ≤ (c :: (used ++ tail)).length := by simp
  rw [scanText_escape (not_closes_back hmark _) rfl hnext, h, List.reverseAux_eq,
    scanText_drop hlength, List.drop_succ_cons, List.drop_left]

/-- What stands for a text is read as the text, up to the quote behind it. -/
theorem scanText_of_decodes (hmark : mark = '\'' ∨ mark = '"') (h : Decodes true mark body text)
    (hline : '\n' ∉ body) (line : Nat) (acc rest : List Char) :
    scanText (lineQuotes mark) 0 line acc (body ++ mark :: rest) =
      .ok (String.ofList (acc.reverse ++ text), line, rest) := by
  induction h generalizing acc with
  | nil =>
    refine (scanText_closes ⟨rfl, .inl rfl⟩).trans ?_
    rw [List.append_nil]
    rfl
  | plain hne hback h ih =>
    rw [List.mem_cons, not_or] at hline
    rw [List.cons_append, scanText_plain (fun hclose => hne hclose.1) (Ne.symm hline.1) hback,
      ih hline.2]
    simp
  | @letter c d body text hc h ih =>
    simp only [List.mem_cons, not_or] at hline
    have hread := scanText_escape_append hmark [] (Ne.symm hline.2.1)
      (decodeEscape_letter hc (body ++ mark :: rest)) line acc
    refine hread.trans ((ih hline.2.2 _).trans ?_)
    simp
  | @code c d width digits body text hc hd h ih =>
    simp only [List.mem_cons, List.mem_append, not_or] at hline
    have hcode := (escapedCodePoint?_eq_some_iff (one_lt_of_mem_codeEscapes hc)).mpr
      ⟨digits, body ++ mark :: rest, rfl, hd⟩
    have hread := scanText_escape_append hmark digits (Ne.symm hline.2.1)
      (hd.1 ▸ decodeEscape_code hc hcode) line acc
    rw [List.cons_append, List.cons_append, List.append_assoc]
    refine hread.trans ((ih hline.2.2.2 _).trans ?_)
    simp
  | @kept c body text hletter hcode h ih =>
    simp only [List.mem_cons, not_or] at hline
    have hnone (width : Nat) (hc : (c, width) ∈ codeEscapes) :
        escapedCodePoint? width body = none := by
      refine Option.eq_none_iff_forall_ne_some.mpr fun d hd => ?_
      obtain ⟨digits, rest, hcs, hdigits⟩ :=
        (escapedCodePoint?_eq_some_iff (one_lt_of_mem_codeEscapes hc)).mp hd
      exact hcode width digits d rest hc hcs hdigits
    -- The quote behind the body is no digit, so that the digits of an escape stand in the body.
    have hends : ∀ e ∈ (mark :: rest).head?, EndsDigits e := by
      rintro e ⟨⟩
      exact endsDigits_of_quote hmark
    have hdecode := (decodeEscape_append c hends).trans (decodeEscape_kept hletter hnone)
    have hread := scanText_escape_append hmark [] (Ne.symm hline.2.1) hdecode line acc
    refine hread.trans ((ih hline.2.2 _).trans ?_)
    simp

/-- What is read up to a quote on the same line stands for the text that is read. -/
theorem exists_decodes (hmark : mark = '\'' ∨ mark = '"') {line : Nat}
    {acc : List Char} {s : String}
    (h : scanText (lineQuotes mark) 0 line acc cs = .ok (s, line, rest)) :
    ∃ body text, cs = body ++ mark :: rest ∧ '\n' ∉ body ∧ Decodes true mark body text ∧
      s = String.ofList (acc.reverse ++ text) := by
  have hmarkLine : (lineQuotes mark).mark ≠ '\n' := by
    rcases hmark with rfl | rfl <;> simp [lineQuotes]
  induction hn : cs.length using Nat.strongRecOn generalizing cs acc with
  | ind n ih =>
    rcases cs with _ | ⟨c, cs⟩
    · cases h
    by_cases hc : c = mark
    · rw [scanText_closes ⟨hc, .inl rfl⟩] at h
      cases h
      exact ⟨[], [], by rw [hc]; rfl, by simp, .nil, by rw [List.append_nil]⟩
    have hclose : ¬ (lineQuotes mark).Closes c cs := fun hclose => hc hclose.1
    by_cases hnewline : c = '\n'
    · subst hnewline
      rw [scanText_openLine hclose rfl] at h
      cases h
    by_cases hback : c = '\\'
    · subst hback
      rcases cs with _ | ⟨next, tail⟩
      · rw [scanText_back hclose] at h
        cases h
      by_cases hnext : next = '\n'
      · -- The text goes on in the next line.
        subst hnext
        rw [scanText_joinedLine hclose rfl] at h
        obtain ⟨used, -, -, hread⟩ := scanText_lines hmarkLine h
        rw [hread] at h
        simp only [Except.ok.injEq, Prod.mk.injEq] at h
        omega
      -- What stands behind an escape is read like the whole.
      have hafter {used image tail' : List Char} (htail : tail = used ++ tail')
          (hdecode : decodeEscape next tail = (image, used.length + 1)) :
          ∃ body text, tail' = body ++ mark :: rest ∧ '\n' ∉ body ∧ Decodes true mark body text ∧
            s = String.ofList (acc.reverse ++ (image ++ text)) := by
        subst htail
        rw [scanText_escape_append hmark used hnext hdecode] at h
        obtain ⟨body, text, hbody, hline, hdecodes, hs⟩ :=
          ih tail'.length (by simp [← hn]; omega) h rfl
        exact ⟨body, text, hbody, hline, hdecodes, by rw [hs]; simp⟩
      rcases decodeEscape_cases next tail with ⟨d, hd, hdecode⟩ |
        ⟨width, digits, d, tail', hwidth, htail, hd, hdecode⟩ | ⟨hletter, hcode, hdecode⟩
      · obtain ⟨body, text, rfl, hline, hdecodes, hs⟩ := hafter (List.nil_append _).symm hdecode
        exact ⟨_, _, rfl, by simp [hline, Ne.symm hnext], .letter hd hdecodes, hs⟩
      · have hdigits : '\n' ∉ digits := by
          have hread := (escapedCodePoint?_eq_some_iff (one_lt_of_mem_codeEscapes hwidth)).mpr
            ⟨digits, [], (List.append_nil _).symm, hd⟩
          have hnone := newline_notMem_digits hread
          rwa [← hd.1, List.take_length] at hnone
        obtain ⟨body, text, rfl, hline, hdecodes, hs⟩ := hafter htail (hd.1 ▸ hdecode)
        refine ⟨_, _, ?_, ?_, .code hwidth hd hdecodes, hs⟩
        · rw [htail]
          simp
        · simp [hline, hdigits, Ne.symm hnext]
      · obtain ⟨body, text, rfl, hline, hdecodes, hs⟩ := hafter (List.nil_append _).symm hdecode
        refine ⟨_, _, rfl, by simp [hline, Ne.symm hnext], .kept hletter ?_ hdecodes, hs⟩
        rintro width digits d tail' hwidth rfl
        exact hcode width digits d (tail' ++ mark :: rest) hwidth (List.append_assoc _ _ _)
    · rw [scanText_plain hclose hnewline hback] at h
      obtain ⟨body, text, rfl, hline, hdecodes, rfl⟩ := ih cs.length (by simp [← hn]) h rfl
      exact ⟨c :: body, c :: text, rfl, by simp [hline, Ne.symm hnewline], .plain hc hback hdecodes,
        by simp⟩

/-- Where no three quotes follow each other, a quote begins a text of one line. -/
theorem takeInLine_quote (hmark : mark = '\'' ∨ mark = '"')
    (hsingle : ¬ [mark, mark] <+: cs) {s t : Scan}
    (hs : s.rest = mark :: cs) :
    s.takeInLine = .ok (some t) ↔
      ∃ text line rest, scanText (lineQuotes mark) 0 s.line [] cs = .ok (text, line, rest) ∧
        t = { s with rest := rest, line := line, found := ⟨.str text, s.line⟩ :: s.found } := by
  have htriple : [mark, mark].isPrefixOf cs = false := by
    rwa [← Bool.not_eq_true, List.isPrefixOf_iff_prefix]
  rw [takeInLine_of_quote hmark hs, hs, Scan.takeText]
  dsimp only
  rw [htriple, if_neg Bool.false_ne_true, ← lineQuotes]
  cases hread : scanText (lineQuotes mark) 0 s.line [] cs with
  | error fault => simp [Except.map]
  | ok read =>
    obtain ⟨text, line, rest⟩ := read
    simp [Except.map, eq_comm]

/-! ### Signs in the place of digits -/

/-- An escape with digits has a plus sign in the place of the first digit. -/
def HasSignedCode (body : List Char) : Prop :=
  ∃ c width, (c, width) ∈ codeEscapes ∧ ['\\', c, '+'] <:+: body

theorem HasSignedCode.of_suffix {cs : List Char} (h : HasSignedCode cs) (hcs : cs <:+ body) :
    HasSignedCode body := by
  obtain ⟨c, width, hc, hinside⟩ := h
  exact ⟨c, width, hc, hinside.trans hcs.isInfix⟩

theorem IsCode.congr {signed signed' : Bool} (h : IsCode signed width digits d)
    (hsign : ∀ ds, digits ≠ '+' :: ds) : IsCode signed' width digits d := by
  obtain ⟨hlength, hdigits | ⟨-, ds, hds, -⟩⟩ := h
  · exact ⟨hlength, .inl hdigits⟩
  · exact absurd hds (hsign ds)

/-- The first of the digits behind an escape is no sign, where there are no signed ones. -/
theorem ne_plus_of_not_hasSignedCode (hc : (c, width) ∈ codeEscapes) {rest : List Char}
    (h : ¬ HasSignedCode ('\\' :: c :: (digits ++ rest))) : ∀ ds, digits ≠ '+' :: ds := by
  rintro ds rfl
  exact h ⟨c, width, hc, (List.prefix_append ['\\', c, '+'] (ds ++ rest)).isInfix⟩

/-- Without signs in the place of digits it does not matter whether they are taken. -/
theorem Decodes.congr {signed signed' : Bool} (h : Decodes signed mark body text)
    (hnone : ¬ HasSignedCode body) : Decodes signed' mark body text := by
  have htail {cs tail : List Char} (hcs : ¬ HasSignedCode cs) (htail : tail <:+ cs) :
      ¬ HasSignedCode tail := fun hsigned => hcs (hsigned.of_suffix htail)
  induction h with
  | nil => exact .nil
  | plain hmark hback _ ih => exact .plain hmark hback (ih (htail hnone (List.suffix_cons _ _)))
  | letter hc _ ih => exact .letter hc (ih (htail hnone ⟨['\\', _], rfl⟩))
  | @code c d width digits body text hc hd _ ih =>
    refine .code hc (hd.congr (ne_plus_of_not_hasSignedCode hc hnone)) (ih (htail hnone ?_))
    exact ⟨'\\' :: c :: digits, rfl⟩
  | kept hletter hcode _ ih =>
    refine .kept hletter (fun width digits d rest hc hbody hd => ?_)
      (ih (htail hnone ⟨['\\', _], rfl⟩))
    subst hbody
    exact hcode width digits d rest hc rfl (hd.congr (ne_plus_of_not_hasSignedCode hc hnone))

/-! ### Sources that are a single text -/

/-- A text on one line is a token. -/
theorem tokenize_quotedLine (hmark : mark = '\'' ∨ mark = '"') (h : Decodes true mark body text)
    (hline : '\n' ∉ body) :
    ∃ ts, tokenize (String.ofList (mark :: (body ++ [mark]))) = .ok ts ∧
      kinds ts = [.str (String.ofList text), .newline, .finish] := by
  have hsingle : ¬ [mark, mark] <+: body ++ [mark] := by
    intro hprefix
    cases h with
    | nil => simp at hprefix
    | plain hne => exact hne (List.cons_prefix_cons.mp hprefix).1.symm
    | letter | code | kept =>
      have hback := (List.cons_prefix_cons.mp hprefix).1
      rcases hmark with rfl | rfl <;> exact absurd hback (by decide)
  have hlexes : Lexes (mark :: (body ++ [mark])) ([] ++ [.str (String.ofList text)]) [] := by
    refine lexes_of_step (List.cons_ne_nil _ _) fun s hs => ?_
    rw [List.append_nil] at hs
    have hread := scanText_of_decodes hmark h hline s.line [] []
    exact ⟨_, (takeInLine_quote hmark hsingle hs).mpr ⟨_, _, _, hread, rfl⟩, rfl, rfl, rfl, rfl⟩
  have hstart : startsLine mark = true := by rcases hmark with rfl | rfl <;> rfl
  have hlist := String.toList_ofList (l := mark :: (body ++ [mark]))
  exact tokenize_of_lexes hlist hstart (hlist.symm ▸ hlexes) rfl

end Line

/-- A quote that is not one of three begins a text, and the text is on one line if and only if the
quote is followed by characters that stand for it on this line and by the same quote: that is the
token, and the scan goes on behind the quote. Where no escape has a plus sign in the place of its
first digit, only hexadecimal digits are taken as digits. -/
theorem quoted_line_decodes {mark : Char} (hmark : mark = '\'' ∨ mark = '"') :
    (∀ (s t : Scan) (cs : List Char), s.rest = mark :: cs → ¬ [mark, mark] <+: cs →
      (s.takeInLine = .ok (some t) ∧ t.line = s.line ↔
        ∃ body text rest, cs = body ++ mark :: rest ∧ '\n' ∉ body ∧ Decodes true mark body text ∧
          t = { s with rest := rest, found := ⟨.str (String.ofList text), s.line⟩ :: s.found })) ∧
    (∀ body text, '\n' ∉ body → Decodes true mark body text →
      ∃ ts, tokenize (String.ofList (mark :: (body ++ [mark]))) = .ok ts ∧
        kinds ts = [.str (String.ofList text), .newline, .finish]) ∧
    ∀ body text, ¬ HasSignedCode body →
      (Decodes true mark body text ↔ Decodes false mark body text) := by
  refine ⟨fun s t cs hs hsingle => ⟨?_, ?_⟩,
    fun body text hline h => tokenize_quotedLine hmark h hline,
    fun body text hnone => ⟨fun h => h.congr hnone, fun h => h.congr hnone⟩⟩
  · rintro ⟨htake, hline⟩
    obtain ⟨text, line, rest, hread, rfl⟩ := (takeInLine_quote hmark hsingle hs).mp htake
    obtain rfl : line = s.line := hline
    obtain ⟨body, text, hcs, hbody, hdecodes, rfl⟩ := exists_decodes hmark hread
    exact ⟨body, text, rest, hcs, hbody, hdecodes, rfl⟩
  · rintro ⟨body, text, rest, rfl, hbody, hdecodes, rfl⟩
    have hread := scanText_of_decodes hmark hdecodes hbody s.line [] rest
    exact ⟨(takeInLine_quote hmark hsingle hs).mpr ⟨_, _, _, hread, rfl⟩, rfl⟩

theorem not_isCode_of_escapedCodePoint? (h : ∀ width, (c, width) ∈ codeEscapes →
    escapedCodePoint? width cs = none) : ∀ width digits d rest, (c, width) ∈ codeEscapes →
      cs = digits ++ rest → ¬ IsCode true width digits d := by
  intro width digits d rest hc hcs hd
  have hread := (escapedCodePoint?_eq_some_iff (one_lt_of_mem_codeEscapes hc)).mpr
      ⟨digits, rest, hcs, hd⟩
  rw [h width hc] at hread
  cases hread

/-- An escape that is cut short, a quote in an escape, a letter beyond the first 128 characters by
its digits, and a backslash that begins no escape. -/
theorem quoted_line_decodes_mixed :
    let body := "a\\x4\\'\\u00e9\\q".toList
    let text := "a\\x4'é\\q".toList
    ('\'' = '\'' ∨ '\'' = '"') ∧ '\n' ∉ body ∧ Decodes true '\'' body text ∧ ¬ HasSignedCode body ∧
      (∃ ts, tokenize (String.ofList ('\'' :: (body ++ ['\'']))) = .ok ts ∧
        kinds ts = [.str "a\\x4'é\\q", .newline, .finish]) ∧ Decodes false '\'' body text := by
  intro body text
  obtain ⟨-, htokens, hsigned⟩ := quoted_line_decodes (.inl rfl : '\'' = '\'' ∨ '\'' = '"')
  have hline : '\n' ∉ body := by decide
  have hdecodes : Decodes true '\'' body text := by
    change Decodes true '\'' ['a', '\\', 'x', '4', '\\', '\'', '\\', 'u', '0', '0', 'e',
      '9', '\\', 'q']
      ['a', '\\', 'x', '4', '\'', 'é', '\\', 'q']
    have hshort : ∀ width, ('x', width) ∈ codeEscapes →
        escapedCodePoint? width "4\\'\\u00e9\\q".toList = none := by
      intro width hwidth
      obtain rfl : width = 2 := by simpa [codeEscapes] using hwidth
      decide
    have hcode : IsCode true 4 ['0', '0', 'e', '9'] 'é' :=
      isCode_of_isNumeral (intOfDigits?_eq_some_iff.mp (by decide : intOfDigits? 16 _ = some 233))
        rfl
        nofun rfl
    have hkept : Decodes true '\'' ['\\', 'q'] ['\\', 'q'] :=
      .kept (by simp [letterEscapes])
        (fun width _ _ _ hwidth => by simp [codeEscapes] at hwidth) .nil
    refine .plain (by decide) (by decide) (.kept (by simp [letterEscapes])
      (not_isCode_of_escapedCodePoint? hshort) (.plain (by decide) (by decide) ?_))
    exact .letter (by decide) (.code (by decide) hcode hkept)
  have hnone : ¬ HasSignedCode body := by
    rintro ⟨c, width, hc, hinside⟩
    exact absurd (hinside.mem (by simp)) (by decide : '+' ∉ body)
  have hlexed := htokens body text hline hdecodes
  rw [String.ofList_toList] at hlexed
  exact ⟨.inl rfl, hline, hdecodes, hnone, hlexed, (hsigned body text hnone).mp hdecodes⟩

/-- A plus sign and a digit are taken as the two digits of a character, although a plus sign is no
digit. -/
theorem quoted_line_signed :
    (∃ ts, tokenize "'\\x+5'" = .ok ts ∧ kinds ts = [.str "\x05", .newline, .finish]) ∧
      Decodes false '\'' "\\x+5".toList "\\x+5".toList := by
  constructor
  · have hcode : IsCode true 2 ['+', '5'] '\x05' :=
      isCode_of_isNumeral (intOfDigits?_eq_some_iff.mp (by decide : intOfDigits? 16 _ = some 5)) rfl
        nofun rfl
    have hdecodes : Decodes true '\'' "\\x+5".toList "\x05".toList := .code (by decide) hcode .nil
    have htokens := tokenize_quotedLine (.inl rfl) hdecodes (by decide)
    have hsource : String.ofList ('\'' :: ("\\x+5".toList ++ ['\''])) = "'\\x+5'" := by decide
    rwa [hsource, String.ofList_toList] at htokens
  · change Decodes false '\'' ['\\', 'x', '+', '5'] ['\\', 'x', '+', '5']
    have hplus : ∀ width digits d rest, ('x', width) ∈ codeEscapes → ['+', '5'] = digits ++ rest →
        ¬ IsCode false width digits d := by
      rintro width digits d rest hwidth hdigits ⟨hlength, hcode | ⟨hsigned, -⟩⟩
      · have hlong := one_lt_of_mem_codeEscapes hwidth
        cases digits with
        | nil =>
          rw [List.length_nil] at hlength
          omega
        | cons c digits =>
          rw [← (List.cons.inj hdigits).1] at hcode
          exact not_areDigits_cons (by decide) hcode
      · cases hsigned
    exact .kept (by simp [letterEscapes]) hplus (.plain (by decide) (by decide)
      (.plain (by decide) (by decide) .nil))

end NoteShell.Grammar
