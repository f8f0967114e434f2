import Mathlib.Data.List.Basic
import NoteShell.Grammar.Literal
import NoteShell.Proofs.Lexing.Consumption
import NoteShell.Proofs.Text.Trimming

/-!
# Blank space behind a token

A token ends before blank space, and what the scan reads in one step within a line does not depend
on blank space behind it: an escape takes no character that is no digit, and neither does a number.
Only a comment, which ends with its line, runs through blank space.

## Main definitions

* `EndsDigits` : no digit and no sign.
* `Separates` : a character that no token runs into.
* `IsMargin` : blank space without line ends.

## Main results

* `decodeEscape_append` : an escape before a character that is no digit.
* `decodeEscape_taken_le` : an escape takes no more than there is.
* `separates_of_isBlank` : no token runs into a blank.
* `scanText_append_margin`, `scanNumber_append_margin` : literals before blank space.
* `Scan.takeInLine_append_margin` : a step within a line, before blank space.
-/

namespace NoteShell.Grammar

open NoteShell.Decimal NoteShell.Text

/-! ### Escapes -/

section Escapes

/-- No digit and no sign. -/
def EndsDigits (c : Char) : Prop := digitValue? c = none ∧ c ≠ '+' ∧ c ≠ '-'

variable {base width : Nat} {c : Char} {cs rest : List Char}

theorem readDigits_eq_none (hmem : c ∈ cs) (hc : digitOf? base c = none) (value : Nat) :
    readDigits base value cs = none := by
  induction cs generalizing value with
  | nil => cases hmem
  | cons d cs ih =>
    rw [readDigits]
    rcases List.mem_cons.mp hmem with rfl | hmem
    · rw [hc]
    · split
      · exact ih hmem _
      · rfl

theorem natOfDigits?_eq_none (hmem : c ∈ cs) (hc : digitOf? base c = none) :
    natOfDigits? base cs = none := by
  cases cs with
  | nil => rfl
  | cons d cs => exact readDigits_eq_none hmem hc 0

theorem intOfDigits?_eq_none (hmem : c ∈ cs) (hc : EndsDigits c) : intOfDigits? base cs = none := by
  have hdigit : digitOf? base c = none := by rw [digitOf?, hc.1]; rfl
  unfold intOfDigits?
  split
  · rw [natOfDigits?_eq_none ((List.mem_cons.mp hmem).resolve_left hc.2.2) hdigit]
    rfl
  · rw [natOfDigits?_eq_none ((List.mem_cons.mp hmem).resolve_left hc.2.1) hdigit]
    rfl
  · rw [natOfDigits?_eq_none hmem hdigit]
    rfl

theorem escapedCodePoint?_eq_none (h : cs.length < width) : escapedCodePoint? width cs = none := by
  rw [escapedCodePoint?, if_neg]
  rw [List.length_take]
  omega

/-- The digits of an escape end before a character that is no digit. -/
theorem escapedCodePoint?_append (hrest : ∀ c ∈ rest.head?, EndsDigits c) :
    escapedCodePoint? width (cs ++ rest) = escapedCodePoint? width cs := by
  by_cases hwidth : width ≤ cs.length
  · rw [escapedCodePoint?, escapedCodePoint?, List.take_append_of_le_length hwidth]
  · rw [escapedCodePoint?_eq_none (Nat.lt_of_not_le hwidth)]
    cases rest with
    | nil => rw [List.append_nil, escapedCodePoint?_eq_none (by omega)]
    | cons d rest =>
      have hmem : d ∈ (cs ++ d :: rest).take width := by
        rw [List.take_append]
        obtain ⟨more, hmore⟩ : ∃ more, width - cs.length = more + 1 :=
          Nat.exists_eq_succ_of_ne_zero (by omega)
        rw [hmore, List.take_succ_cons]
        simp
      rw [escapedCodePoint?, intOfDigits?_eq_none hmem (hrest d rfl)]
      split_ifs
      · split <;> rfl
      · rfl

theorem length_of_escapedCodePoint? {d : Char} (h : escapedCodePoint? width cs = some d) :
    width ≤ cs.length := by
  by_contra hlt
  rw [escapedCodePoint?_eq_none (by omega)] at h
  cases h

/-- An escape stands for the same, whatever follows its digits. -/
theorem decodeEscape_append (c : Char) (hrest : ∀ c ∈ rest.head?, EndsDigits c) :
    decodeEscape c (cs ++ rest) = decodeEscape c cs := by
  unfold decodeEscape
  rw [escapedCodePoint?_append hrest, escapedCodePoint?_append hrest]

/-- An escape takes no more than there is. -/
theorem decodeEscape_taken_le (c : Char) (cs : List Char) :
    (decodeEscape c cs).2 ≤ cs.length + 1 := by
  unfold decodeEscape
  split
  case h_8 | h_9 =>
    split
    · next h =>
      have hlength := length_of_escapedCodePoint? h
      dsimp only
      omega
    · exact Nat.le_add_left 1 _
  all_goals exact Nat.le_add_left 1 _

end Escapes

/-! ### Blanks -/

/-- The codes of the characters that are blank. -/
def blankCodes : List Nat :=
  [9, 10, 11, 12, 13, 0x20, 0x85, 0xA0, 0x1680, 0x2000, 0x2001, 0x2002, 0x2003, 0x2004, 0x2005, 0x2006,
    0x2007, 0x2008, 0x2009, 0x200A, 0x2028, 0x2029, 0x202F, 0x205F, 0x3000]

theorem mem_blankCodes {c : Char} (h : isBlank c = true) : c.toNat ∈ blankCodes := by
  simp only [isBlank, Bool.or_eq_true, Bool.and_eq_true, decide_eq_true_eq, beq_iff_eq] at h
  simp only [blankCodes, List.mem_cons, List.not_mem_nil, or_false]
  omega

/-- A character that is no part of a word, a number or a symbol, and begins no text or comment. -/
structure Separates (c : Char) : Prop where
  notName : Scan.isNamePart c = false
  notDecimal : isDecimalPart c = false
  endsDigits : EndsDigits c
  notExponent : c ≠ 'e' ∧ c ≠ 'E'
  notQuote : c ≠ '"' ∧ c ≠ '\''
  notMark : c ≠ '#' ∧ c ≠ '\\' ∧ c ≠ '.'
  notSymbol : ∀ s ∈ Symbol.all, c ∉ s.chars
  notRadix : radixOf? c = none

theorem Separates.isDigit_eq_false {c : Char} (h : Separates c) : c.isDigit = false ∧
    (c == '_') = false :=
  Bool.or_eq_false_iff.mp h.notDecimal

theorem separates_of_isBlank {c : Char} (h : isBlank c = true) : Separates c := by
  have hcodes : ∀ n ∈ blankCodes, Separates (Char.ofNat n) := by
    have hwords : ∀ n ∈ blankCodes, Scan.isNamePart (Char.ofNat n) = false ∧
        isDecimalPart (Char.ofNat n) = false ∧
        (digitValue? (Char.ofNat n) = none ∧ Char.ofNat n ≠ '+' ∧ Char.ofNat n ≠ '-') ∧
        Char.ofNat n ≠ 'e' ∧ Char.ofNat n ≠ 'E' := by decide +kernel
    have hmarks : ∀ n ∈ blankCodes, (Char.ofNat n ≠ '"' ∧ Char.ofNat n ≠ '\'') ∧
        (Char.ofNat n ≠ '#' ∧ Char.ofNat n ≠ '\\' ∧ Char.ofNat n ≠ '.') ∧
        (∀ s ∈ Symbol.all, Char.ofNat n ∉ s.chars) ∧ radixOf? (Char.ofNat n) = none := by
      decide +kernel
    intro n hn
    obtain ⟨hname, hdecimal, hdigits, hexponent⟩ := hwords n hn
    obtain ⟨hquote, hmark, hsymbol, hradix⟩ := hmarks n hn
    exact ⟨hname, hdecimal, hdigits, hexponent, hquote, hmark, hsymbol, hradix⟩
  rw [← Char.ofNat_toNat c]
  exact hcodes _ (mem_blankCodes h)

/-- Blank space without line ends. -/
def IsMargin (cs : List Char) : Prop := ∀ c ∈ cs, isBlank c = true ∧ c ≠ '\n'

variable {margin cs : List Char}

theorem isMargin_nil : IsMargin [] := by simp [IsMargin]

theorem IsMargin.of_suffix (h : IsMargin cs) (hmargin : margin <:+ cs) : IsMargin margin :=
  fun c hc => h c (hmargin.mem hc)

theorem IsMargin.separates (h : IsMargin margin) {c : Char} (hc : c ∈ margin) : Separates c :=
  separates_of_isBlank (h c hc).1

theorem IsMargin.quote_not_mem (h : IsMargin margin) {mark : Char}
    (hmark : mark = '\'' ∨ mark = '"') :
    mark ∉ margin := fun hmem => by
  have hquote := (h.separates hmem).notQuote
  exact hmark.elim hquote.2 hquote.1

/-! ### What comes before a margin -/

/-- A class of characters without blanks ends before a margin. -/
theorem takeWhile_append_margin {p : Char → Bool} (hp : ∀ c ∈ margin, p c = false)
    (cs : List Char) :
    (cs ++ margin).takeWhile p = cs.takeWhile p ∧
      (cs ++ margin).dropWhile p = cs.dropWhile p ++ margin := by
  induction cs with
  | nil =>
    cases margin with
    | nil => exact ⟨rfl, rfl⟩
    | cons c margin => simp [hp c List.mem_cons_self]
  | cons c cs ih =>
    cases hc : p c <;> simp [hc, ih]

/-- A word whose last character is not in a margin stands at the front of a text only if it does
without the margin. -/
theorem isPrefixOf_append_margin {word : List Char} (h : ∀ c ∈ word.getLast?, c ∉ margin)
    (cs : List Char) : word.isPrefixOf (cs ++ margin) = word.isPrefixOf cs := by
  rw [Bool.eq_iff_iff, List.isPrefixOf_iff_prefix, List.isPrefixOf_iff_prefix]
  refine ⟨fun hword => ?_, fun hword => hword.trans (List.prefix_append _ _)⟩
  rcases List.prefix_or_prefix_of_prefix hword (List.prefix_append cs margin)
    with hword | ⟨front, rfl⟩
  · exact hword
  · have hfront : front <+: margin := (List.prefix_append_right_inj cs).mp hword
    rcases List.eq_nil_or_concat front with rfl | ⟨init, last, rfl⟩
    · exact (List.append_nil cs).symm ▸ List.prefix_refl cs
    · refine absurd (hfront.mem ?_) (h last ?_)
      · simp
      · simp

/-- A text that holds no quote of its kind does not end. -/
theorem scanText_ne_ok {q : Quotes} (hmark : q.mark ∉ cs) (skip line : Nat) (acc : List Char)
    (result : String × Nat × List Char) : scanText q skip line acc cs ≠ .ok result := by
  fun_induction scanText q skip line acc cs with
  | case1 | case5 => simp
  | case3 _ _ c _ hc => exact absurd (hc.1 ▸ List.mem_cons_self) hmark
  | case2 _ _ _ _ _ ih | case4 _ _ _ _ _ ih | case6 _ _ _ _ ih | case7 _ _ _ _ _ _ _ _ ih
  | case8 _ _ _ _ _ _ _ ih | case9 _ _ _ _ _ _ _ _ _ _ _ _ ih | case10 _ _ _ _ _ _ _ ih =>
    exact ih fun hmem => hmark (List.mem_cons_of_mem _ hmem)

/-- Before a margin a text is read to the same closing quote. -/
theorem scanText_append_margin {q : Quotes} (hmark : q.mark = '\'' ∨ q.mark = '"')
    (hmargin : IsMargin margin) {skip line line' : Nat} {acc rest : List Char} {s : String}
    (h : scanText q skip line acc (cs ++ margin) = .ok (s, line', rest)) :
    ∃ left, rest = left ++ margin ∧ scanText q skip line acc cs = .ok (s, line', left) := by
  have hmarkMargin := hmargin.quote_not_mem hmark
  have hdigits : ∀ c ∈ margin.head?, EndsDigits c := fun c hc =>
    (hmargin.separates (List.mem_of_mem_head? hc)).endsDigits
  have hword (cs : List Char) :
      [q.mark, q.mark].isPrefixOf (cs ++ margin) = [q.mark, q.mark].isPrefixOf cs :=
    isPrefixOf_append_margin (by simpa using hmarkMargin) cs
  induction cs generalizing skip line acc with
  | nil => exact absurd h (scanText_ne_ok hmarkMargin _ _ _ _)
  | cons c cs ih =>
    cases skip with
    | succ skip =>
      rw [List.cons_append, scanText] at h
      rw [scanText]
      exact ih h
    | zero =>
      have hok := h
      rw [List.cons_append, scanText.eq_def] at h
      rw [scanText.eq_def]
      dsimp only at h ⊢
      rw [hword] at h
      by_cases hend : c = q.mark ∧ (q.triple = false ∨ [q.mark, q.mark].isPrefixOf cs = true)
      · rw [if_pos hend] at h ⊢
        cases h
        refine ⟨_, ?_, rfl⟩
        split_ifs with htriple
        · have htwo := hend.2.resolve_left (by simp [htriple])
          exact List.drop_append_of_le_length (List.isPrefixOf_iff_prefix.mp htwo).length_le
        · rfl
      rw [if_neg hend] at h ⊢
      by_cases hline : c = '\n'
      · rw [if_pos hline] at h ⊢
        split_ifs at h ⊢
        exact ih h
      rw [if_neg hline] at h ⊢
      by_cases hback : c = '\\'
      · rw [if_pos hback] at h ⊢
        cases cs with
        | nil =>
          -- No quote follows the backslash.
          have hnone : q.mark ∉ c :: margin := by
            rw [List.mem_cons, not_or, hback]
            exact ⟨by rcases hmark with hmark | hmark <;> rw [hmark] <;> decide, hmarkMargin⟩
          exact absurd hok (scanText_ne_ok hnone _ _ _ _)
        | cons next tail =>
          simp only [List.cons_append, decodeEscape_append next hdigits] at h ⊢
          split_ifs at h ⊢ <;> exact ih h
      · rw [if_neg hback] at h ⊢
        exact ih h

theorem scanExponent_append_margin (hmargin : IsMargin margin) (cs : List Char) :
    scanExponent (cs ++ margin) = ((scanExponent cs).1, (scanExponent cs).2 ++ margin) := by
  have hhead : ∀ c tail, margin = c :: tail →
      c.isDigit = false ∧ c ≠ '+' ∧ c ≠ '-' ∧ c ≠ 'e' ∧ c ≠ 'E' := by
    rintro c tail rfl
    have hseparates := hmargin.separates (c := c) List.mem_cons_self
    exact ⟨hseparates.isDigit_eq_false.1, hseparates.endsDigits.2.1, hseparates.endsDigits.2.2,
      hseparates.notExponent⟩
  have hdigits := takeWhile_append_margin (p := isDecimalPart) fun c hc =>
    (hmargin.separates hc).notDecimal
  cases cs with
  | nil =>
    cases hm : margin with
    | nil => rfl
    | cons c tail => simp [scanExponent, (hhead c tail hm).2.2.2]
  | cons mark rest =>
    by_cases hmark : mark = 'e' ∨ mark = 'E'
    swap
    · simp [scanExponent, hmark]
    -- After the mark and a sign stands a digit, something else, or the margin.
    have hsigned (sign : List Char) (hsign : sign = ['+'] ∨ sign = ['-']) (digits : List Char) :
        scanExponent (mark :: sign ++ digits ++ margin) =
          ((scanExponent (mark :: sign ++ digits)).1,
            (scanExponent (mark :: sign ++ digits)).2 ++ margin) := by
      cases digits with
      | nil =>
        cases hm : margin with
        | nil => simp
        | cons c tail =>
          rcases hsign with rfl | rfl <;> simp [scanExponent, hmark, (hhead c tail hm).1]
      | cons d digits =>
        obtain ⟨htake, hdrop⟩ := hdigits (d :: digits)
        rw [List.cons_append] at htake hdrop
        cases hd : d.isDigit <;> rcases hsign with rfl | rfl <;>
          simp [scanExponent, hmark, hd, htake, hdrop]
    rcases rest with _ | ⟨c, rest⟩
    · cases hm : margin with
      | nil => simp
      | cons c tail =>
        obtain ⟨hdigit, hplus, hminus, -⟩ := hhead c tail hm
        simp [scanExponent, hmark, hdigit, hplus, hminus]
    · by_cases hplus : c = '+'
      · subst hplus
        exact hsigned ['+'] (.inl rfl) rest
      by_cases hminus : c = '-'
      · subst hminus
        exact hsigned ['-'] (.inr rfl) rest
      obtain ⟨htake, hdrop⟩ := hdigits (c :: rest)
      rw [List.cons_append] at htake hdrop
      cases hc : c.isDigit <;> simp [scanExponent, hmark, hplus, hminus, hc, htake, hdrop]

theorem checkNumberEnd_append_margin (hmargin : IsMargin margin) (cs : List Char) :
    checkNumberEnd (cs ++ margin) = checkNumberEnd cs := by
  cases cs with
  | cons c cs => rfl
  | nil =>
    cases margin with
    | nil => rfl
    | cons c margin =>
      have hname : (isAlphanumeric c || c == '_') = false :=
        (hmargin.separates List.mem_cons_self).notName
      rw [List.nil_append, checkNumberEnd, hname]
      rfl

theorem scanRadix_append_margin (hmargin : IsMargin margin) (base : Nat) (cs : List Char) :
    scanRadix base (cs ++ margin) =
      (scanRadix base cs).map fun result => (result.1, result.2 ++ margin) := by
  obtain ⟨htake, hdrop⟩ := takeWhile_append_margin
    (p := fun c => (digitOf? base c).isSome || c == '_') (fun c hc => by
      have hseparates := hmargin.separates hc
      rw [digitOf?, hseparates.endsDigits.1, hseparates.isDigit_eq_false.2]
      rfl) cs
  simp only [scanRadix, htake, hdrop, checkNumberEnd_append_margin hmargin]
  split
  · rfl
  · cases checkNumberEnd (cs.dropWhile fun c => (digitOf? base c).isSome || c == '_') <;> rfl

theorem closeDecimal_append_margin (hmargin : IsMargin margin) (whole fraction rest : List Char) :
    closeDecimal whole fraction (rest ++ margin) =
      (closeDecimal whole fraction rest).map fun result => (result.1, result.2 ++ margin) := by
  simp only [closeDecimal, scanExponent_append_margin hmargin, checkNumberEnd_append_margin hmargin]
  cases checkNumberEnd (scanExponent rest).2 with
  | error e => rfl
  | ok u =>
    simp only [bind, Except.bind]
    split_ifs <;> split <;> rfl

/-- A list that begins with no blank begins in the same way before a margin. -/
theorem eq_cons_of_append_margin (hmargin : IsMargin margin) {c : Char} (hc : ¬ Separates c)
    {tail : List Char} (h : cs ++ margin = c :: tail) : ∃ left, cs = c :: left := by
  cases cs with
  | nil =>
    rw [List.nil_append] at h
    exact absurd (hmargin.separates (h ▸ List.mem_cons_self)) hc
  | cons d cs => exact ⟨cs, by rw [(List.cons.inj h).1]⟩

theorem scanDecimal_append_margin (hmargin : IsMargin margin) (cs : List Char) :
    scanDecimal (cs ++ margin) = (scanDecimal cs).map fun result =>
      (result.1, result.2 ++ margin) := by
  have hparts := takeWhile_append_margin (p := isDecimalPart) fun c hc =>
    (hmargin.separates hc).notDecimal
  have hpoint : ¬ Separates '.' := fun h => h.notMark.2.2 rfl
  obtain ⟨hwhole, hafter⟩ := hparts cs
  rcases scanDecimal_cases cs with ⟨tail, htail, heq⟩ | ⟨hnone, heq⟩ <;>
    rcases scanDecimal_cases (cs ++ margin) with ⟨tail', htail', heq'⟩ | ⟨hnone', heq'⟩ <;>
      rw [heq, heq', hwhole]
  · rw [hafter, htail, List.cons_append] at htail'
    obtain rfl := (List.cons.inj htail').2
    rw [(hparts tail).1, (hparts tail).2, closeDecimal_append_margin hmargin]
  · exact absurd (by rw [hafter, htail]; rfl) (hnone' (tail ++ margin))
  · obtain ⟨left, hleft⟩ := eq_cons_of_append_margin hmargin hpoint (hafter.symm.trans htail')
    exact absurd hleft (hnone left)
  · rw [hafter, closeDecimal_append_margin hmargin]

theorem scanNumber_eq_scanDecimal
    (h : ∀ mark rest, cs = '0' :: mark :: rest → radixOf? mark = none) :
    scanNumber cs = scanDecimal cs := by
  unfold scanNumber
  split
  · rw [h _ _ rfl]
  · rfl

/-- A number ends before a margin. -/
theorem scanNumber_append_margin (hmargin : IsMargin margin) (cs : List Char) :
    scanNumber (cs ++ margin) = (scanNumber cs).map fun result =>
      (result.1, result.2 ++ margin) := by
  by_cases hradix : ∃ mark rest base, cs = '0' :: mark :: rest ∧ radixOf? mark = some base
  · obtain ⟨mark, rest, base, rfl, hbase⟩ := hradix
    simp only [List.cons_append, scanNumber, hbase]
    exact scanRadix_append_margin hmargin base rest
  have hnone {mark : Char} {rest : List Char} (hcs : cs = '0' :: mark :: rest) :
      radixOf? mark = none := by
    cases hbase : radixOf? mark with
    | none => rfl
    | some base => exact absurd ⟨mark, rest, base, hcs, hbase⟩ hradix
  rw [scanNumber_eq_scanDecimal fun mark rest => hnone, ← scanDecimal_append_margin hmargin]
  refine scanNumber_eq_scanDecimal fun mark rest hrest => ?_
  have hzero : ¬ Separates '0' := fun h => absurd h.notDecimal (by decide)
  obtain ⟨left, rfl⟩ := eq_cons_of_append_margin hmargin hzero hrest
  by_contra hmark
  have hseparates : ¬ Separates mark := fun h => hmark h.notRadix
  obtain ⟨left', rfl⟩ := eq_cons_of_append_margin hmargin hseparates (List.cons.inj hrest).2
  exact hmark (hnone rfl)

/-! ### Steps before a margin -/

namespace Scan

/-- The same position with other characters left. -/
def withRest (s : Scan) (cs : List Char) : Scan := { s with rest := cs }

variable {s t : Scan}

theorem takeText_append_margin {raw isFormatted : Bool} {mark : Char}
    (hmark : mark = '\'' ∨ mark = '"')
    (hmargin : IsMargin margin) (h : s.takeText raw isFormatted (mark :: (cs ++ margin)) = .ok t) :
    ∃ left, t.rest = left ++ margin ∧
      s.takeText raw isFormatted (mark :: cs) = .ok (t.withRest left) := by
  have hmarkMargin := hmargin.quote_not_mem hmark
  have hword : [mark, mark].isPrefixOf (cs ++ margin) = [mark, mark].isPrefixOf cs :=
    isPrefixOf_append_margin (by simpa using hmarkMargin) cs
  have hdrop : (if [mark, mark].isPrefixOf cs = true then (cs ++ margin).drop 2 else cs ++ margin) =
      (if [mark, mark].isPrefixOf cs = true then cs.drop 2 else cs) ++ margin := by
    split_ifs with htriple
    · exact List.drop_append_of_le_length (List.isPrefixOf_iff_prefix.mp htriple).length_le
    · rfl
  rw [takeText] at h ⊢
  dsimp only at h ⊢
  rw [hword, hdrop] at h
  split at h
  · cases h
  · next text line rest hscan =>
    obtain ⟨left, rfl, hleft⟩ := scanText_append_margin hmark hmargin hscan
    cases h
    exact ⟨left, rfl, by rw [hleft]; rfl⟩

theorem takeName_append_margin (hmargin : IsMargin margin) (cs : List Char)
    (h : (s.withRest (cs ++ margin)).takeName = .ok t) :
    ∃ left, t.rest = left ++ margin ∧ (s.withRest cs).takeName = .ok (t.withRest left) := by
  obtain ⟨htake, hdrop⟩ := takeWhile_append_margin (p := isNamePart)
    (fun c hc => (hmargin.separates hc).notName) cs
  have hquoted : startsQuoted (cs.dropWhile isNamePart ++ margin) =
      startsQuoted (cs.dropWhile isNamePart) := by
    cases cs.dropWhile isNamePart with
    | cons c rest => rfl
    | nil =>
      cases margin with
      | nil => rfl
      | cons c margin =>
        have hquote := (hmargin.separates (c := c) List.mem_cons_self).notQuote
        simp [startsQuoted, hquote]
  rw [takeName] at h ⊢
  dsimp only [withRest] at h ⊢
  rw [htake, hdrop, hquoted] at h
  cases hstarts : startsQuoted (cs.dropWhile isNamePart) with
  | false =>
    rw [hstarts] at h
    cases h
    exact ⟨_, rfl, rfl⟩
  | true =>
    rw [hstarts] at h
    cases hmarks : textMarks? (cs.takeWhile isNamePart) with
    | none =>
      rw [hmarks] at h
      cases h
      exact ⟨_, rfl, rfl⟩
    | some marks =>
      obtain ⟨mark, tail, htail, hmark⟩ := eq_cons_of_startsQuoted hstarts
      rw [hmarks, htail] at h
      rw [htail]
      exact takeText_append_margin hmark hmargin h

theorem takeNumber_append_margin (hmargin : IsMargin margin) (cs : List Char)
    (h : (s.withRest (cs ++ margin)).takeNumber = .ok t) :
    ∃ left, t.rest = left ++ margin ∧ (s.withRest cs).takeNumber = .ok (t.withRest left) := by
  rw [takeNumber] at h ⊢
  dsimp only [withRest] at h ⊢
  rw [scanNumber_append_margin hmargin] at h
  cases hscan : scanNumber cs with
  | error e =>
    rw [hscan] at h
    cases h
  | ok result =>
    rw [hscan] at h
    cases h
    exact ⟨result.2, rfl, rfl⟩

theorem takeSymbol_append_margin (hmargin : IsMargin margin) (cs : List Char) {c : Char}
    (h : (s.withRest (cs ++ margin)).takeSymbol c = .ok t) :
    ∃ left, t.rest = left ++ margin ∧ (s.withRest cs).takeSymbol c = .ok (t.withRest left) := by
  have hstart : Symbol.atStart? (cs ++ margin) = Symbol.atStart? cs := by
    refine congrArg Symbol.all.find? (funext fun symbol => ?_)
    refine isPrefixOf_append_margin (fun d hd hmem => ?_) cs
    have hall : symbol ∈ Symbol.all := by cases symbol <;> decide
    exact (hmargin.separates hmem).notSymbol symbol hall (List.mem_of_mem_getLast? hd)
  rw [takeSymbol] at h ⊢
  dsimp only [withRest] at h ⊢
  rw [hstart] at h
  split at h
  · cases h
  · next symbol hsymbol =>
    cases h
    have hword : symbol.chars <+: cs := by simpa using List.find?_some hsymbol
    exact ⟨cs.drop symbol.chars.length, List.drop_append_of_le_length hword.length_le, rfl⟩

/-- A comment ends with its line, or with the text. -/
theorem dropComment_append_margin (hmargin : IsMargin margin) (cs : List Char) :
    ∃ margin', IsMargin margin' ∧ dropComment (cs ++ margin) = dropComment cs ++ margin' := by
  have hline : dropComment margin = [] :=
    List.dropWhile_eq_nil_iff.mpr fun c hc => decide_eq_true (hmargin c hc).2
  rw [dropComment, List.dropWhile_append]
  split_ifs with hempty
  · exact ⟨[], isMargin_nil, by rw [dropComment, List.isEmpty_iff.mp hempty]; exact hline⟩
  · exact ⟨margin, hmargin, rfl⟩

/-- The end of a line is met in the same way, whatever follows it. -/
theorem takeInLine_newline (s : Scan) :
    ∃ u : Scan, ∀ cs, (s.withRest ('\n' :: cs)).takeInLine = .ok (some (u.withRest cs)) := by
  obtain ⟨rest, line, depth, atLineStart, indents, found⟩ := s
  by_cases hdepth : depth = 0
  · subst hdepth
    cases found with
    | nil => exact ⟨⟨rest, line + 1, 0, true, indents, []⟩, fun cs => rfl⟩
    | cons t ts =>
      cases ht : t.kind.isNewline with
      | true =>
        refine ⟨⟨rest, line + 1, 0, true, indents, t :: ts⟩, fun cs => ?_⟩
        simp [takeInLine, withRest, endLine, ht]
      | false =>
        refine ⟨⟨rest, line + 1, 0, true, indents, ⟨.newline, line⟩ :: t :: ts⟩, fun cs => ?_⟩
        simp [takeInLine, withRest, endLine, ht, push]
  · refine ⟨⟨rest, line + 1, depth, atLineStart, indents, found⟩, fun cs => ?_⟩
    simp [takeInLine, withRest, hdepth]

/-- A step within a line is the same before a margin. -/
theorem takeInLine_append_margin (hmargin : IsMargin margin) (hcs : cs ≠ [])
    (h : (s.withRest (cs ++ margin)).takeInLine = .ok (some t)) :
    ∃ left margin', IsMargin margin' ∧ t.rest = left ++ margin' ∧
      (s.withRest cs).takeInLine = .ok (some (t.withRest left)) := by
  obtain ⟨c, tail, rfl⟩ := List.exists_cons_of_ne_nil hcs
  -- What is looked at behind the first character does not lie in the margin.
  have hnewline : '\n' ∉ margin := fun hmem => (hmargin _ hmem).2 rfl
  have hbreak : ['\n'].isPrefixOf (tail ++ margin) = ['\n'].isPrefixOf tail :=
    isPrefixOf_append_margin (by simpa using hnewline) tail
  have hbreak' : ['\r', '\n'].isPrefixOf (tail ++ margin) = ['\r', '\n'].isPrefixOf tail :=
    isPrefixOf_append_margin (by simpa using hnewline) tail
  have hdigit : ((tail ++ margin).headD ' ').isDigit = (tail.headD ' ').isDigit := by
    cases tail with
    | cons d tail => rfl
    | nil =>
      cases margin with
      | nil => rfl
      | cons d margin =>
        exact (hmargin.separates (c := d) List.mem_cons_self).isDigit_eq_false.1
  have hword {x y : Except SourceError Scan} (hx : x.map some = .ok (some t))
      (hy : x = .ok t → ∃ left, t.rest = left ++ margin ∧ y = .ok (t.withRest left)) :
      ∃ left margin', IsMargin margin' ∧ t.rest = left ++ margin' ∧
        y.map some = .ok (some (t.withRest left)) := by
    obtain ⟨left, hrest, rfl⟩ := hy (eq_ok_of_map_some hx)
    exact ⟨left, margin, hmargin, hrest, rfl⟩
  by_cases hline : c = '\n'
  · obtain ⟨u, hu⟩ := takeInLine_newline s
    subst hline
    rw [List.cons_append, hu] at h
    cases h
    exact ⟨tail, margin, hmargin, rfl, hu tail⟩
  rw [takeInLine] at h ⊢
  dsimp only [withRest, List.cons_append] at h ⊢
  rw [hbreak, hbreak', hdigit] at h
  by_cases hblank : c = ' ' ∨ c = '\t' ∨ c = '\x0c' ∨ c = '\r'
  · rw [if_pos hblank] at h ⊢
    cases h
    exact ⟨tail, margin, hmargin, rfl, rfl⟩
  rw [if_neg hblank] at h ⊢
  by_cases hcomment : c = '#'
  · rw [if_pos hcomment] at h ⊢
    obtain ⟨margin', hmargin', hrest⟩ := dropComment_append_margin hmargin tail
    cases h
    exact ⟨dropComment tail, margin', hmargin', hrest, rfl⟩
  rw [if_neg hcomment] at h ⊢
  rw [if_neg hline] at h ⊢
  by_cases hescaped : c = '\\' ∧ ['\n'].isPrefixOf tail = true
  · rw [if_pos hescaped] at h ⊢
    cases h
    refine ⟨tail.drop 1, margin, hmargin, ?_, rfl⟩
    exact List.drop_append_of_le_length (List.isPrefixOf_iff_prefix.mp hescaped.2).length_le
  rw [if_neg hescaped] at h ⊢
  by_cases hescaped : c = '\\' ∧ ['\r', '\n'].isPrefixOf tail = true
  · rw [if_pos hescaped] at h ⊢
    cases h
    refine ⟨tail.drop 2, margin, hmargin, ?_, rfl⟩
    exact List.drop_append_of_le_length (List.isPrefixOf_iff_prefix.mp hescaped.2).length_le
  rw [if_neg hescaped] at h ⊢
  by_cases hquote : c = '"' ∨ c = '\''
  · rw [if_pos hquote] at h ⊢
    exact hword h (takeText_append_margin hquote.symm hmargin)
  rw [if_neg hquote] at h ⊢
  by_cases hnumber : c.isDigit = true
  · rw [if_pos hnumber] at h ⊢
    exact hword h (takeNumber_append_margin hmargin (c :: tail))
  rw [if_neg hnumber] at h ⊢
  by_cases hpoint : c = '.' ∧ (tail.headD ' ').isDigit = true
  · rw [if_pos hpoint] at h ⊢
    exact hword h (takeNumber_append_margin hmargin (c :: tail))
  rw [if_neg hpoint] at h ⊢
  by_cases hname : isNameStart c = true
  · rw [if_pos hname] at h ⊢
    exact hword h (takeName_append_margin hmargin (c :: tail))
  rw [if_neg hname] at h ⊢
  exact hword h (takeSymbol_append_margin hmargin (c :: tail))

end Scan

end NoteShell.Grammar
