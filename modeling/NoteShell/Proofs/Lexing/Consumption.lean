import Mathlib.Data.Bool.AllAny
import Mathlib.Data.List.TakeWhile
import NoteShell.Proofs.Lexing.Blocks
import NoteShell.Proofs.Lexing.Weight
import NoteShell.Proofs.Parsing.Fields

/-!
# What a step of the scan takes

A step of the scan takes characters from the front of what is left. In a text without escapes,
comments and triple quotes the characters of a step close all quotes that they open, and open as
many brackets as the scan counts. Looking at one character at a time therefore finds the same
brackets as the scan.

## Main definitions

* `Simple` : a text without escapes, comments, triple quotes and ends of fields.
* `Scan.Takes` : from one position to another a scan takes characters.

## Main results

* `Scan.takes_of_step` : what a step takes.
* `Scan.run_eq` : more steps than there are characters make no difference.
* `Scan.exists_after?_of_run` : the brackets of a simple text.
-/

namespace NoteShell.Grammar

open NoteShell.Text

/-- In a text without escapes, comments, triple quotes and ends of fields, looking at one character
at a time is enough. -/
structure Simple (cs : List Char) : Prop where
  noEscape : '\\' ∉ cs
  noComment : '#' ∉ cs
  noEnd : ∀ c ∈ cs, c ∉ fieldEnds
  noTriple : ∀ q, [q, q, q] <:+: cs → q ≠ '\'' ∧ q ≠ '"'

variable {cs rest : List Char}

theorem Simple.of_suffix (h : Simple cs) (hrest : rest <:+ cs) : Simple rest :=
  ⟨fun hmem => h.noEscape (hrest.mem hmem), fun hmem => h.noComment (hrest.mem hmem),
    fun c hc => h.noEnd c (hrest.mem hc), fun q hq => h.noTriple q (hq.trans hrest.isInfix)⟩

/-! ### Literals -/

theorem scanText_suffix {q : Quotes} {skip line line' : Nat} {acc : List Char} {s : String}
    (h : scanText q skip line acc cs = .ok (s, line', rest)) : rest <:+ cs := by
  fun_induction scanText q skip line acc cs with
  | case1 | case5 => cases h
  | case3 =>
    obtain ⟨-, -, hrest⟩ : _ = s ∧ _ = line' ∧ _ = rest := by simpa using h
    rw [← hrest]
    refine List.IsSuffix.trans ?_ (List.suffix_cons _ _)
    split_ifs
    · exact List.drop_suffix _ _
    · exact List.suffix_refl _
  | case2 _ _ _ _ _ ih | case4 _ _ _ _ _ ih | case6 _ _ _ _ ih | case7 _ _ _ _ _ _ _ _ ih
  | case8 _ _ _ _ _ _ _ ih | case9 _ _ _ _ _ _ _ _ _ _ _ _ ih | case10 _ _ _ _ _ _ _ ih =>
    exact (ih h).trans (List.suffix_cons _ _)

/-- Without escapes and triple quotes a text ends at the next quote of its kind. -/
theorem exists_body_of_scanText {q : Quotes} (hq : q.triple = false) (hcs : '\\' ∉ cs)
    {line line' : Nat} {acc : List Char} {s : String}
    (h : scanText q 0 line acc cs = .ok (s, line', rest)) :
    ∃ body, cs = body ++ q.mark :: rest ∧ q.mark ∉ body := by
  induction cs generalizing line acc with
  | nil => cases h
  | cons c cs ih =>
    rw [List.mem_cons, not_or] at hcs
    rw [scanText.eq_def] at h
    simp only [hq, true_or, and_true, Ne.symm hcs.1, if_false, Bool.false_eq_true] at h
    split_ifs at h with hmark hline
    · cases h
      exact ⟨[], by rw [hmark]; rfl, by simp⟩
    · obtain ⟨body, rfl, hbody⟩ := ih hcs.2 h
      exact ⟨c :: body, rfl, by simp [hbody, Ne.symm hmark]⟩

/-- The characters of a class without marks. -/
theorem notMem_marks_of_takeWhile {p : Char → Bool} (hp : ∀ c ∈ fieldMarks, p c = false) :
    ∀ c ∈ cs.takeWhile p, c ∉ fieldMarks := by
  intro c hc hmark
  have hpc := List.mem_takeWhile_imp hc
  rw [hp c hmark] at hpc
  cases hpc

theorem isNumberPart_of_mem_marks : ∀ c ∈ fieldMarks, isNumberPart c = false :=
  List.all_iff_forall_prop.mp (by decide)

/-- No number has a mark in it. -/
theorem notMem_marks_of_isNumberPart {used : List Char} (h : ∀ c ∈ used, isNumberPart c = true) :
    ∀ c ∈ used, c ∉ fieldMarks := fun c hc hmark =>
  Bool.false_ne_true ((isNumberPart_of_mem_marks c hmark).symm.trans (h c hc))

/-! ### Steps -/

namespace Scan

variable {s t : Scan}

/-- From `s` to `t` a scan takes characters. Those of a simple text open as many brackets as it
counts, and no quotes. -/
def Takes (s t : Scan) : Prop :=
  ∃ cs, cs ≠ [] ∧ s.rest = cs ++ t.rest ∧
    (Simple s.rest → Nest.after? ⟨none, s.depth⟩ cs = some ⟨none, t.depth⟩)

/-- Characters without meaning are taken. -/
theorem Takes.of_notMem_marks (hne : cs ≠ []) (hs : s.rest = cs ++ t.rest)
    (hdepth : t.depth = s.depth)
    (h : Simple s.rest → ∀ c ∈ cs, c ∉ fieldMarks) : s.Takes t :=
  ⟨cs, hne, hs, fun hsimple => by rw [Nest.after?_of_notMem_marks (h hsimple), hdepth]⟩

/-- Characters without meaning are taken in front of others. -/
theorem Takes.cons {u : Scan} (hs : s.rest = cs ++ u.rest) (hdepth : u.depth = s.depth)
    (h : ∀ c ∈ cs, c ∉ fieldMarks) (hu : u.Takes t) : s.Takes t := by
  obtain ⟨cs', hne, hrest, hafter⟩ := hu
  refine ⟨cs ++ cs', by simp [hne], by rw [hs, hrest, List.append_assoc], fun hsimple => ?_⟩
  rw [Nest.after?_append, Nest.after?_of_notMem_marks h, Option.bind_some, ← hdepth]
  exact hafter (hsimple.of_suffix (hs ▸ List.suffix_append _ _))

theorem Takes.length_lt (h : s.Takes t) : t.rest.length < s.rest.length := by
  obtain ⟨cs, hne, hrest, -⟩ := h
  have hpos := List.length_pos_iff.mpr hne
  rw [hrest, List.length_append]
  omega

theorem takes_takeText {raw isFormatted : Bool} {mark : Char} (hmark : mark = '\'' ∨ mark = '"')
    {tail : List Char} (hs : s.rest = mark :: tail)
    (h : s.takeText raw isFormatted (mark :: tail) = .ok t) : s.Takes t := by
  obtain ⟨text, line, rest, hscan, rfl⟩ := takeText_eq_ok h
  obtain ⟨body, hbody⟩ := (scanText_suffix hscan).trans (suffix_of_quotes mark tail)
  refine ⟨mark :: body, List.cons_ne_nil _ _, by rw [hs, ← hbody]; rfl, fun hsimple => ?_⟩
  have htriple : [mark, mark].isPrefixOf tail = false := by
    by_contra hfront
    rw [Bool.not_eq_false, List.isPrefixOf_iff_prefix] at hfront
    have hthree : [mark, mark, mark] <+: s.rest := hs ▸ List.cons_prefix_cons.mpr ⟨rfl, hfront⟩
    obtain ⟨hsingle, hdouble⟩ := hsimple.noTriple mark hthree.isInfix
    exact hmark.elim hsingle hdouble
  rw [htriple] at hscan
  have hescape : '\\' ∉ tail := fun hmem => hsimple.noEscape (hs ▸ List.mem_cons_of_mem _ hmem)
  obtain ⟨inner, htail, hinner⟩ := exists_body_of_scanText rfl hescape hscan
  have hsame : body = inner ++ [mark] := by
    refine (List.append_left_inj rest).mp ?_
    rw [hbody, htail, List.append_assoc]
    rfl
  have hopen : Nest.step? ⟨none, s.depth⟩ mark = some ⟨some mark, s.depth⟩ := by
    simp [Nest.step?, hmark]
  rw [hsame, Nest.after?_cons, hopen, Option.bind_some, Nest.after?_append,
    Nest.after?_of_notMem_quote hinner, Option.bind_some]
  simp [Nest.after?, Nest.step?]

theorem isNamePart_of_mem_marks : ∀ c ∈ fieldMarks, isNamePart c = false :=
  List.all_iff_forall_prop.mp (by decide +kernel)

theorem takes_takeName (hs : s.rest.takeWhile isNamePart ≠ []) (h : s.takeName = .ok t) :
    s.Takes t := by
  have hsplit := (List.takeWhile_append_dropWhile (p := isNamePart) (l := s.rest)).symm
  have hplain : ∀ c ∈ s.rest.takeWhile isNamePart, c ∉ fieldMarks :=
    notMem_marks_of_takeWhile isNamePart_of_mem_marks
  rcases takeName_cases h with ⟨_, _, mark, tail, -, htail, hmark, htext⟩ | rfl
  · rw [htail] at hsplit
    exact .cons (u := { s with rest := mark :: tail }) hsplit rfl hplain
      (takes_takeText hmark rfl htext)
  · exact .of_notMem_marks hs hsplit rfl fun _ => hplain

theorem takes_takeNumber {c : Char} {cs : List Char} (hs : s.rest = c :: cs)
    (hc : c.isDigit = true ∨ c = '.') (h : s.takeNumber = .ok t) : s.Takes t := by
  obtain ⟨k, rest, hscan, rfl⟩ := takeNumber_eq_ok h
  rw [hs] at hscan
  obtain ⟨used, rfl, hparts⟩ := exists_used_of_scanNumber hc hscan
  exact .of_notMem_marks (List.cons_ne_nil c used) hs rfl fun _ =>
    notMem_marks_of_isNumberPart hparts

theorem takes_takeSymbol {c : Char} (h : s.takeSymbol c = .ok t) : s.Takes t := by
  obtain ⟨symbol, hsymbol, rfl⟩ := takeSymbol_eq_ok h
  have hfront : symbol.chars <+: s.rest := by
    simpa using List.find?_some hsymbol
  refine ⟨symbol.chars, by cases symbol <;> decide, (List.prefix_iff_eq_append.mp hfront).symm,
    fun hsimple => ?_⟩
  have hends : ∀ c ∈ symbol.chars, c ∉ fieldEnds := fun c hc => hsimple.noEnd c (hfront.mem hc)
  rw [← List.all_iff_forall_prop] at hends
  cases symbol <;> first | rfl | exact absurd hends (by decide)

theorem notMem_marks_of_blanks : ∀ c ∈ [' ', '\t', '\x0c', '\r'], c ∉ fieldMarks :=
  List.all_iff_forall_prop.mp (by decide)

/-- What a step within a line takes. -/
theorem takes_of_lineStep (h : s.LineStep t) : s.Takes t := by
  -- What is skipped is a single character, or none of a simple text.
  have hone {c : Char} {rest : List Char} (hs : s.rest = c :: rest) {u : Scan} (hu : u.rest = rest)
      (hdepth : u.depth = s.depth) (hc : c ∉ fieldMarks) : s.Takes u :=
    .of_notMem_marks (List.cons_ne_nil c []) (by rw [hs, hu]; rfl) hdepth fun _ d hd =>
      List.mem_singleton.mp hd ▸ hc
  have hmany {c : Char} {front : List Char} {u : Scan} (hs : s.rest = c :: front ++ u.rest)
      (hc : c = '\\' ∨ c = '#') : s.Takes u := by
    refine ⟨c :: front, List.cons_ne_nil _ _, hs, fun hsimple => ?_⟩
    rcases hc with rfl | rfl
    · exact absurd (hs ▸ List.mem_cons_self) hsimple.noEscape
    · exact absurd (hs ▸ List.mem_cons_self) hsimple.noComment
  cases h with
  | blank hs hc => exact hone hs rfl rfl (notMem_marks_of_blanks _ hc)
  | @comment rest hs =>
    obtain ⟨front, hfront⟩ : dropComment rest <:+ rest := List.dropWhile_suffix _
    exact hmany (hs.trans (congrArg _ hfront.symm)) (.inr rfl)
  | lineEnd hs => exact hone hs rfl s.endLine_depth_indents.1 (by decide)
  | innerLineEnd hs => exact hone hs rfl rfl (by decide)
  | brokenLine hcs hs => rcases hcs with rfl | rfl <;> exact hmany hs (.inl rfl)
  | text hmark hs h => exact takes_takeText hmark hs h
  | number hs hc h => exact takes_takeNumber hs hc h
  | name hs hc h =>
    refine takes_takeName ?_ h
    rw [hs, List.takeWhile_cons_of_pos (isNamePart_of_isNameStart hc)]
    exact List.cons_ne_nil _ _
  | symbol _ h => exact takes_takeSymbol h

theorem indentTo_rest_depth {column : Nat} (h : s.indentTo column = .ok t) :
    t.rest = s.rest ∧ t.depth = s.depth := by
  rw [indentTo] at h
  dsimp only at h
  split_ifs at h <;> cases h <;> exact ⟨rfl, rfl⟩

/-- What a step takes. -/
theorem takes_of_step (h : s.step = .ok (some t)) : s.Takes t := by
  -- The blanks in front of a line are taken with what stands behind them.
  have hblanks {column : Nat} {rest : List Char} (hs : measureIndent 0 s.rest = (column, rest))
      (h : ({ s with rest := rest } : Scan).Takes t) : s.Takes t := by
    obtain ⟨blanks, hrest, hmem⟩ := exists_blanks_of_measureIndent 0 s.rest
    rw [hs] at hrest
    exact .cons (u := { s with rest := rest }) hrest rfl
      (fun c hc => notMem_marks_of_blanks c (List.mem_append_left ['\r'] (hmem c hc))) h
  have hone {c : Char} {rest : List Char} {u : Scan} (hu : u.rest = rest)
      (hdepth : u.depth = s.depth)
      (hc : c ∉ fieldMarks) : ({ s with rest := c :: rest } : Scan).Takes u :=
    .of_notMem_marks (List.cons_ne_nil c []) (by rw [hu]; rfl) hdepth fun _ d hd =>
      List.mem_singleton.mp hd ▸ hc
  cases stepsTo_of_step h with
  | inLine _ h => exact takes_of_lineStep h
  | @comment _ rest hs =>
    obtain ⟨front, hfront⟩ : dropComment rest <:+ rest := List.dropWhile_suffix _
    refine hblanks hs ⟨'#' :: front, List.cons_ne_nil _ _, congrArg _ hfront.symm,
      fun hsimple => ?_⟩
    exact absurd List.mem_cons_self hsimple.noComment
  | carriageReturn hs => exact hblanks hs (hone rfl rfl (by decide))
  | blankLine hs => exact hblanks hs (hone rfl rfl (by decide))
  | @lineStart _ u _ c rest _ hs hu h =>
    obtain ⟨hrest, hdepth⟩ := indentTo_rest_depth hu
    have hsame : c :: rest = [] ++ u.rest := hrest.symm
    exact hblanks hs (.cons hsame hdepth (by simp) (takes_of_lineStep h))

/-- More steps than there are characters make no difference. -/
theorem run_eq {m n : Nat} (hm : s.rest.length < m) (hn : s.rest.length < n) :
    s.run m = s.run n := by
  induction m generalizing n s with
  | zero => omega
  | succ m ih =>
    obtain ⟨n, rfl⟩ := Nat.exists_eq_succ_of_ne_zero (Nat.ne_zero_of_lt hn)
    rw [run, run]
    split
    · rfl
    · rfl
    · next t ht =>
      have hlt := (takes_of_step ht).length_lt
      exact ih (by omega) (by omega)

/-- At the end of the text only blanks are left. -/
theorem blanks_of_step_eq_none (h : s.step = .ok none) :
    ∀ c ∈ s.rest, c ∈ [' ', '\t', '\x0c'] := by
  have hinLine {u : Scan} (hu : u.takeInLine = .ok none) : u.rest = [] := by
    rw [takeInLine] at hu
    split at hu
    · assumption
    · have hmap {x : Except SourceError Scan} (hx : x.map some = .ok none) : False := by
        cases x <;> cases hx
      split_ifs at hu <;> first | cases hu | exact (hmap hu).elim
  obtain ⟨blanks, hblanks, hmem⟩ := exists_blanks_of_measureIndent 0 s.rest
  rw [step] at h
  split_ifs at h
  · split at h
    next column rest hmeasure =>
    rw [hmeasure] at hblanks
    split at h
    · rw [hblanks, List.append_nil]
      exact hmem
    · split_ifs at h
      · cases h
      · cases h
      · cases h
      · dsimp only at h
        split at h
        · next u hu =>
          have hnil := hinLine h
          rw [(indentTo_rest_depth hu).1] at hnil
          cases hnil
        · cases h
  · rw [hinLine h]
    simp

/-- The brackets of a simple text are those that the scan has counted at its end. -/
theorem exists_after?_of_run {n : Nat} {tokens : List Token} (hs : s.InOrder)
    (hn : s.rest.length < n) (hsimple : Simple s.rest) (h : s.run n = .ok tokens) :
    ∃ u : Scan, u.InOrder ∧ tokens = u.finish ∧
      Nest.after? ⟨none, s.depth⟩ s.rest = some ⟨none, u.depth⟩ := by
  induction n generalizing s with
  | zero => omega
  | succ n ih =>
    rw [run] at h
    split at h
    · cases h
    · next hnone =>
      cases h
      exact ⟨s, hs, rfl, Nest.after?_of_notMem_marks
        (fun c hc => notMem_marks_of_blanks c
          (List.mem_append_left ['\r'] (blanks_of_step_eq_none hnone c hc)))
        s.depth⟩
    · next t ht =>
      have htakes := takes_of_step ht
      have hlt := htakes.length_lt
      obtain ⟨cs, -, hrest, hafter⟩ := htakes
      obtain ⟨u, hu, htokens, hlast⟩ :=
        ih (hs.step ht) (by omega) (hsimple.of_suffix (hrest ▸ List.suffix_append _ _)) h
      refine ⟨u, hu, htokens, ?_⟩
      have hfirst := hafter hsimple
      rw [hrest, Nest.after?_append, hfirst]
      exact hlast

/-- The end of the text opens and closes no bracket. -/
theorem bracketDepth_finish_reverse (s : Scan) :
    bracketDepth s.finish.reverse = bracketDepth s.found := by
  have hreplicate (n line : Nat) (ts : List Token) :
      bracketDepth (List.replicate n ⟨.dedent, line⟩ ++ ts) = bracketDepth ts := by
    induction n with
    | zero => rfl
    | succ n ih => exact ih
  have hline : bracketDepth s.endLine.found = bracketDepth s.found := by
    rcases s.found_endLine_cases with ⟨hsame, -⟩ | ⟨t, ts, hfound, -, hend⟩
    · rw [hsame]
    · rw [hend, hfound]
      rfl
  rw [s.finish_reverse, bracketDepth, hreplicate, hline]
  rfl

end Scan

end NoteShell.Grammar
