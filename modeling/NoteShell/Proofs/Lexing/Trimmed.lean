import NoteShell.Proofs.Lexing.Margins

/-!
# Blank space around a source text

Blank space around a source text of one line makes no difference to its tokens, as long as the scan
does not fail because of it. Behind the text nothing that the scan reads runs into blank space, and
in front of it the scan fails unless the text begins in the first column.

## Main results

* `Scan.step_lineStart` : a step at the start of a line.
* `Scan.run_append_margin` : blank space behind a text.
* `Scan.run_margin_append` : blank space in front of a text.
* `tokenize_trim` : a text without line ends has the tokens of the trimmed text.
-/

namespace NoteShell.Grammar

open NoteShell.Text

variable {margin cs : List Char}

namespace Scan

variable {s t : Scan}

/-! ### The start of a line -/

theorem indentTo_withRest (s : Scan) (column : Nat) (cs : List Char) :
    (s.withRest cs).indentTo column = (s.indentTo column).map (·.withRest cs) := by
  by_cases hdeeper : s.indents.headD 0 < column
  · by_cases hfound : s.found.isEmpty = true <;>
      simp only [indentTo, withRest, hdeeper, hfound, Bool.false_eq_true, if_true,
        if_false, Except.map, push]
  by_cases hshallower : column < s.indents.headD 0
  · by_cases hmatch : (closeBlocks column s.line s.indents s.found).1.head? = some column <;>
      simp only [indentTo, withRest, hdeeper, hshallower, hmatch, if_true, if_false, Except.map]
  · simp only [indentTo, withRest, hdeeper, hshallower, if_false, Except.map]

/-- A step at the start of a line: the end of the text, a line without tokens, or the first step in
the line. -/
theorem step_lineStart (hs : (s.atLineStart && s.depth == 0) = true) (cs : List Char) :
    (s.withRest cs).step =
      match measureIndent 0 cs with
      | (_, []) => .ok none
      | (column, c :: tail) =>
        if c = '#' then .ok (some (s.withRest (dropComment tail)))
        else if c = '\r' then .ok (some (s.withRest tail))
        else if c = '\n' then .ok (some ({ s with line := s.line + 1 }.withRest tail))
        else (s.indentTo column).bind fun u => (u.withRest (c :: tail)).takeInLine := by
  have hs' : ((s.withRest cs).atLineStart && (s.withRest cs).depth == 0) = true := hs
  have hcs : (s.withRest cs).rest = cs := rfl
  rw [step, if_pos hs', hcs]
  generalize measureIndent 0 cs = measured
  obtain ⟨column, rest⟩ := measured
  cases rest with
  | nil => rfl
  | cons c tail =>
    have hindent : ({ s.withRest cs with rest := c :: tail } : Scan).indentTo column =
        (s.indentTo column).map (·.withRest (c :: tail)) := s.indentTo_withRest column (c :: tail)
    dsimp only
    rw [hindent]
    cases s.indentTo column <;> rfl

theorem step_inLine (hs : (s.atLineStart && s.depth == 0) = false) (cs : List Char) :
    (s.withRest cs).step = (s.withRest cs).takeInLine := by
  have hs' : ((s.withRest cs).atLineStart && (s.withRest cs).depth == 0) = false := hs
  rw [step, hs']
  rfl

theorem measureIndent_append_margin (column : Nat) (margin : List Char)
    (hcs : ∃ c ∈ cs, c ∉ [' ', '\t', '\x0c']) :
    measureIndent column (cs ++ margin) =
        ((measureIndent column cs).1, (measureIndent column cs).2 ++ margin) ∧
      (measureIndent column cs).2 ≠ [] := by
  fun_induction measureIndent column cs with
  | case1 column rest ih | case2 column rest ih | case3 column rest ih =>
    obtain ⟨c, hc, hnot⟩ := hcs
    have hmem : c ∈ rest := by
      rcases List.mem_cons.mp hc with rfl | hmem
      · exact absurd (by decide) hnot
      · exact hmem
    rw [List.cons_append, measureIndent]
    exact ih ⟨c, hmem, hnot⟩
  | case4 column cs hspace htab hfeed =>
    obtain ⟨c, hc, -⟩ := hcs
    obtain ⟨d, tail, rfl⟩ := List.exists_cons_of_ne_nil (List.ne_nil_of_mem hc)
    refine ⟨?_, List.cons_ne_nil _ _⟩
    rw [List.cons_append, measureIndent]
    · exact fun rest h => hspace tail (by rw [(List.cons.inj h).1])
    · exact fun rest h => htab tail (by rw [(List.cons.inj h).1])
    · exact fun rest h => hfeed tail (by rw [(List.cons.inj h).1])

/-- A step is the same before a margin, as long as it does not come to the margin. -/
theorem step_append_margin (hmargin : IsMargin margin) (hcs : ∃ c ∈ cs, c ∉ [' ', '\t', '\x0c'])
    (h : (s.withRest (cs ++ margin)).step = .ok (some t)) :
    ∃ left margin', IsMargin margin' ∧ t.rest = left ++ margin' ∧
      (s.withRest cs).step = .ok (some (t.withRest left)) := by
  have hne : cs ≠ [] := by
    obtain ⟨c, hc, -⟩ := hcs
    exact List.ne_nil_of_mem hc
  cases hs : (s.atLineStart && s.depth == 0) with
  | false =>
    rw [step_inLine hs] at h ⊢
    exact takeInLine_append_margin hmargin hne h
  | true =>
    obtain ⟨hmeasure, hrest⟩ := measureIndent_append_margin 0 margin hcs
    rw [step_lineStart hs, hmeasure] at h
    rw [step_lineStart hs]
    generalize measureIndent 0 cs = measured at h hrest ⊢
    obtain ⟨column, rest⟩ := measured
    obtain ⟨c, tail, rfl⟩ := List.exists_cons_of_ne_nil hrest
    dsimp only [List.cons_append] at h ⊢
    split_ifs at h ⊢
    · obtain ⟨margin', hmargin', hcomment⟩ := dropComment_append_margin hmargin tail
      cases h
      exact ⟨dropComment tail, margin', hmargin', hcomment, rfl⟩
    · cases h
      exact ⟨tail, margin, hmargin, rfl, rfl⟩
    · cases h
      exact ⟨tail, margin, hmargin, rfl, rfl⟩
    · cases hindent : s.indentTo column with
      | error e =>
        rw [hindent] at h
        cases h
      | ok u =>
        rw [hindent] at h
        exact takeInLine_append_margin hmargin (List.cons_ne_nil c tail) h

/-- Within a line a blank is skipped, or it cannot be read. -/
theorem takeInLine_blank {c : Char} (hblank : isBlank c = true) (hline : c ≠ '\n') {x : Option Scan}
    (h : (s.withRest (c :: cs)).takeInLine = .ok x) :
    c ∈ [' ', '\t', '\x0c', '\r'] ∧ x = some (s.withRest cs) := by
  have hseparates := separates_of_isBlank hblank
  have hquote := hseparates.notQuote
  have hmark := hseparates.notMark
  have hdigit := hseparates.isDigit_eq_false.1
  have hname : isNameStart c = false := by
    have hpart := hseparates.notName
    rw [isNamePart, isAlphanumeric, Bool.or_eq_false_iff, Bool.or_eq_false_iff] at hpart
    rw [isNameStart, hpart.1.1, hpart.2]
    rfl
  have hsymbol : Symbol.atStart? (c :: cs) = none := by
    refine List.find?_eq_none.mpr fun symbol hall hfront => ?_
    obtain ⟨d, ds, hchars⟩ : ∃ d ds, symbol.chars = d :: ds := by cases symbol <;> exact ⟨_, _, rfl⟩
    rw [hchars, List.isPrefixOf_iff_prefix, List.cons_prefix_cons] at hfront
    exact hseparates.notSymbol symbol hall (by rw [hchars, hfront.1]; exact List.mem_cons_self)
  rw [takeInLine] at h
  simp only [withRest, hquote, hmark, hline, hdigit, hname, false_and, or_self, Bool.false_eq_true,
    if_false, takeSymbol, hsymbol, Except.map] at h
  split_ifs at h with hskip
  cases h
  exact ⟨by simpa using hskip, rfl⟩

theorem isBlank_of_indents : ∀ c ∈ [' ', '\t', '\x0c'], isBlank c = true :=
  List.all_iff_forall_prop.mp (by decide)

/-- No blank that indents a line follows its indentation. -/
theorem head_measureIndent (column : Nat) (cs : List Char) :
    ∀ c ∈ (measureIndent column cs).2.head?, c ∉ [' ', '\t', '\x0c'] := by
  fun_induction measureIndent column cs with
  | case1 _ _ ih | case2 _ _ ih | case3 _ _ ih => exact ih
  | case4 column cs hspace htab hfeed =>
    rintro c hc hmem
    obtain ⟨tail, rfl⟩ := List.head?_eq_some_iff.mp hc
    simp only [List.mem_cons, List.not_mem_nil, or_false] at hmem
    rcases hmem with rfl | rfl | rfl
    · exact hspace tail rfl
    · exact htab tail rfl
    · exact hfeed tail rfl

/-- A step at the start of a line that comes to a blank skips it, unless the blank cannot be
read. -/
theorem step_lineStart_blank (hs : (s.atLineStart && s.depth == 0) = true) {column : Nat} {c : Char}
    {tail : List Char} (hmeasure : measureIndent 0 cs = (column, c :: tail))
    (hblank : isBlank c = true)
    (hline : c ≠ '\n') (h : (s.withRest cs).step = .ok (some t)) : t = s.withRest tail := by
  have hcomment : c ≠ '#' := fun hc =>
    (separates_of_isBlank hblank).notMark.1 hc
  rw [step_lineStart hs, hmeasure] at h
  dsimp only at h
  rw [if_neg hcomment, if_neg hline] at h
  split_ifs at h with hreturn
  · cases h
    rfl
  · cases hindent : s.indentTo column with
    | error e =>
      rw [hindent] at h
      cases h
    | ok u =>
      rw [hindent] at h
      have hmem := (takeInLine_blank hblank hline h).1
      have hnot := head_measureIndent 0 cs c (by rw [hmeasure]; rfl)
      simp only [List.mem_cons, List.not_mem_nil, or_false, not_or] at hmem hnot
      tauto

/-- A step over blank space skips some of it. -/
theorem step_margin (hmargin : IsMargin margin) (h : (s.withRest margin).step = .ok (some t)) :
    ∃ left, left <:+ margin ∧ t = s.withRest left := by
  cases hs : (s.atLineStart && s.depth == 0) with
  | false =>
    rw [step_inLine hs] at h
    cases margin with
    | nil => cases h
    | cons c margin =>
      obtain ⟨hblank, hline⟩ := hmargin c List.mem_cons_self
      exact ⟨margin, List.suffix_cons c margin, Option.some.inj (takeInLine_blank hblank hline h).2⟩
  | true =>
    obtain ⟨blanks, hblanks, -⟩ := exists_blanks_of_measureIndent 0 margin
    have hrest : (measureIndent 0 margin).2 <:+ margin := ⟨blanks, hblanks.symm⟩
    cases hmeasure : measureIndent 0 margin with
    | mk column rest =>
      rw [hmeasure] at hrest
      cases rest with
      | nil =>
        rw [step_lineStart hs, hmeasure] at h
        cases h
      | cons c tail =>
        obtain ⟨hblank, hline⟩ := hmargin.of_suffix hrest c List.mem_cons_self
        exact ⟨tail, (List.suffix_cons c tail).trans hrest,
          step_lineStart_blank hs hmeasure hblank hline h⟩

theorem finish_withRest (s : Scan) (cs : List Char) : (s.withRest cs).finish = s.finish := by
  obtain ⟨rest, line, depth, atLineStart, indents, found⟩ := s
  cases found with
  | nil => rfl
  | cons t ts => cases ht : t.kind.isNewline <;> simp [finish, endLine, push, withRest, ht]

/-- At the end of the text the scan ends, whatever blank space is left. -/
theorem run_margin (hmargin : IsMargin margin) {n : Nat} {tokens : List Token}
    (h : (s.withRest margin).run n = .ok tokens) : tokens = s.finish := by
  induction n generalizing margin with
  | zero =>
    cases h
    exact s.finish_withRest margin
  | succ n ih =>
    rw [run] at h
    split at h
    · cases h
    · cases h
      exact s.finish_withRest margin
    · next t ht =>
      obtain ⟨left, hleft, rfl⟩ := step_margin hmargin ht
      exact ih (hmargin.of_suffix hleft) h

theorem run_nil (s : Scan) (n : Nat) : (s.withRest []).run n = .ok s.finish := by
  cases n with
  | zero => exact congrArg Except.ok (s.finish_withRest [])
  | succ n =>
    have hnone : (s.withRest []).step = .ok none := by
      cases hs : (s.atLineStart && s.depth == 0) with
      | false => rw [step_inLine hs]; rfl
      | true => rw [step_lineStart hs]; rfl
    rw [run, hnone, ← s.finish_withRest []]

/-- A text has the same tokens without the margin behind it. -/
theorem run_append_margin (hmargin : IsMargin margin) (hcs : ∀ c ∈ cs.getLast?, isBlank c = false)
    {m n : Nat} (hm : cs.length < m) {tokens : List Token}
    (h : (s.withRest (cs ++ margin)).run n = .ok tokens) (hn : (cs ++ margin).length < n) :
    (s.withRest cs).run m = .ok tokens := by
  induction n generalizing s cs margin m with
  | zero => omega
  | succ n ih =>
    obtain ⟨m, rfl⟩ := Nat.exists_eq_succ_of_ne_zero (Nat.ne_zero_of_lt hm)
    by_cases hnil : cs = []
    · subst hnil
      rw [run_margin hmargin h, run_nil]
    -- The last character is not blank, so the scan goes on.
    have hlast : ∃ c ∈ cs, c ∉ [' ', '\t', '\x0c'] := by
      refine ⟨cs.getLast hnil, List.getLast_mem hnil, fun hmem => ?_⟩
      have hblank := hcs _ (List.getLast?_eq_getLast_of_ne_nil hnil)
      rw [isBlank_of_indents _ hmem] at hblank
      cases hblank
    rw [run] at h
    split at h
    · cases h
    · next hnone =>
      obtain ⟨c, hc, hnot⟩ := hlast
      exact absurd (blanks_of_step_eq_none hnone c (List.mem_append_left _ hc)) hnot
    · next t ht =>
      obtain ⟨left, margin', hmargin', hrest, hstep⟩ := step_append_margin hmargin hlast ht
      have hlt := (takes_of_step ht).length_lt
      have hlt' := (takes_of_step hstep).length_lt
      obtain ⟨used, -, hused, -⟩ := takes_of_step hstep
      have hused : cs = used ++ left := hused
      have hleft : ∀ c ∈ left.getLast?, isBlank c = false := fun c hc =>
        hcs c (by rw [hused, List.getLast?_append, hc]; rfl)
      have hsame : t = t.withRest (left ++ margin') := by rw [← hrest]; rfl
      rw [run, hstep]
      rw [hsame] at h
      rw [hrest] at hlt
      refine ih hmargin' hleft ?_ h ?_
      · exact Nat.lt_of_lt_of_le hlt' (Nat.le_of_lt_succ hm)
      · exact Nat.lt_of_lt_of_le hlt (Nat.le_of_lt_succ hn)

/-- The indentation of a text with a margin in front ends within the margin, or with it. -/
theorem measureIndent_margin_append (margin : List Char) (hcs : ∀ c ∈ cs.head?, isBlank c = false) :
    ∃ left, left <:+ margin ∧ (measureIndent 0 (margin ++ cs)).2 = left ++ cs := by
  obtain ⟨blanks, hblanks, hmem⟩ := exists_blanks_of_measureIndent 0 (margin ++ cs)
  rcases List.append_eq_append_iff.mp hblanks with ⟨more, rfl, hmore⟩ | ⟨left, rfl, hleft⟩
  · cases more with
    | nil => exact ⟨[], List.nil_suffix, hmore.symm⟩
    | cons c more =>
      have hblank : isBlank c = true := isBlank_of_indents c (hmem c (by simp))
      rw [hcs c (by rw [hmore]; rfl)] at hblank
      cases hblank
  · exact ⟨left, List.suffix_append blanks left, hleft⟩

/-- A first line that can be read is not indented. -/
theorem step_margin_append
    (hs : s.atLineStart = true ∧ s.depth = 0 ∧ s.indents = [0] ∧ s.found = [])
    {c : Char} (hc : isBlank c = false) {column : Nat}
    (hmeasure : measureIndent 0 (margin ++ c :: cs) = (column, c :: cs)) {x : Option Scan}
    (h : (s.withRest (margin ++ c :: cs)).step = .ok x) : (s.withRest (c :: cs)).step = .ok x := by
  have hstart : (s.atLineStart && s.depth == 0) = true := by rw [hs.1, hs.2.1]; rfl
  have hzero : measureIndent 0 (c :: cs) = (0, c :: cs) := by
    rw [measureIndent] <;> rintro - ⟨rfl, rfl⟩ <;> exact absurd hc (by decide)
  rw [step_lineStart hstart, hmeasure] at h
  rw [step_lineStart hstart, hzero]
  dsimp only at h ⊢
  split_ifs at h ⊢
  · exact h
  · exact h
  · exact h
  · cases column with
    | zero => exact h
    | succ column =>
      have hdeep : s.indentTo (column + 1) = .error ⟨.unexpectedIndent, s.line⟩ := by
        simp [indentTo, hs.2.2.1, hs.2.2.2]
      rw [hdeep] at h
      cases h

/-- A scan that has found no token has the same tokens without the margin in front of it. -/
theorem run_margin_append (hs : s.atLineStart = true ∧ s.depth = 0 ∧ s.indents = [0] ∧ s.found = [])
    (hmargin : IsMargin margin) (hcs : ∀ c ∈ cs.head?, isBlank c = false) {m n : Nat}
    (hm : cs.length < m) (hn : (margin ++ cs).length < n) {tokens : List Token}
    (h : (s.withRest (margin ++ cs)).run n = .ok tokens) : (s.withRest cs).run m = .ok tokens := by
  have hstart : (s.atLineStart && s.depth == 0) = true := by rw [hs.1, hs.2.1]; rfl
  cases cs with
  | nil =>
    rw [List.append_nil] at h
    rw [run_margin hmargin h, run_nil]
  | cons c cs =>
    induction n generalizing margin with
    | zero => omega
    | succ n ih =>
      obtain ⟨m, rfl⟩ := Nat.exists_eq_succ_of_ne_zero (Nat.ne_zero_of_lt hm)
      obtain ⟨left, hleft, hrest⟩ := measureIndent_margin_append margin hcs
      cases hmeasure : measureIndent 0 (margin ++ c :: cs) with
      | mk column rest =>
      rw [hmeasure] at hrest
      cases hrest
      cases left with
      | nil =>
        have hsame {x : Option Scan} := step_margin_append hs (hcs c rfl) hmeasure (x := x)
        rw [run] at h ⊢
        split at h
        · cases h
        · next hnone =>
          rw [hsame hnone]
          rw [finish_withRest] at h ⊢
          exact h
        · next t ht =>
          have hlt := (takes_of_step ht).length_lt
          have hlt' := (takes_of_step (hsame ht)).length_lt
          rw [hsame ht, ← h]
          refine run_eq ?_ ?_
          · exact Nat.lt_of_lt_of_le hlt' (Nat.le_of_lt_succ hm)
          · exact Nat.lt_of_lt_of_le hlt (Nat.le_of_lt_succ hn)
      | cons d left =>
        obtain ⟨hblank, hline⟩ := hmargin.of_suffix hleft d List.mem_cons_self
        have hstop : (s.withRest (margin ++ c :: cs)).step ≠ .ok none := fun hnone => by
          have hmem := blanks_of_step_eq_none hnone c (by simp [withRest])
          exact Bool.false_ne_true ((hcs c rfl).symm.trans (isBlank_of_indents c hmem))
        rw [run] at h
        split at h
        · cases h
        · next hnone => exact absurd hnone hstop
        · next t ht =>
          have hlt := (takes_of_step ht).length_lt
          obtain rfl := step_lineStart_blank hstart hmeasure hblank hline ht
          refine ih (hmargin.of_suffix ((List.suffix_cons d left).trans hleft)) ?_ h
          exact Nat.lt_of_lt_of_le hlt (Nat.le_of_lt_succ hn)

end Scan

/-- A text without line ends has the tokens of the trimmed text. -/
theorem tokenize_trim {source : String} (hline : '\n' ∉ source.toList) {tokens : List Token}
    (h : tokenize source = .ok tokens) : tokenize (trim source) = .ok tokens := by
  obtain ⟨before, after, hsource, hbefore, hafter, hhead, hlast⟩ := exists_blanks source.toList
  have hmargin {margin : List Char} (hblank : ∀ c ∈ margin, isBlank c = true)
      (hmem : ∀ c ∈ margin, c ∈ source.toList) : IsMargin margin := fun c hc =>
    ⟨hblank c hc, fun hnewline => hline (hnewline ▸ hmem c hc)⟩
  have htrim : (trim source).toList = trimChars source.toList := by
    rw [trim, trimWhile, ← trimChars, String.toList_ofList]
  generalize trimChars source.toList = body at hsource hhead hlast htrim
  have hbefore : IsMargin before := hmargin hbefore fun c hc => by rw [hsource]; simp [hc]
  have hafter : IsMargin after := hmargin hafter fun c hc => by rw [hsource]; simp [hc]
  rw [tokenize, hsource] at h
  rw [tokenize, htrim]
  by_cases hbody : body = []
  · subst hbody
    have hblank : IsMargin (before ++ [] ++ after) := by
      rw [List.append_nil]
      exact List.forall_mem_append.mpr ⟨hbefore, hafter⟩
    rw [Scan.run_margin (s := Scan.start []) hblank h]
    exact (Scan.start []).run_nil 1
  · rw [← List.getLast?_append_of_ne_nil before hbody] at hlast
    have hfront := Scan.run_append_margin (s := Scan.start []) hafter hlast (Nat.lt_succ_self _) h
      (Nat.lt_succ_self _)
    exact Scan.run_margin_append (s := Scan.start []) ⟨rfl, rfl, rfl, rfl⟩ hbefore hhead
      (Nat.lt_succ_self _) (Nat.lt_succ_self _) hfront

end NoteShell.Grammar
