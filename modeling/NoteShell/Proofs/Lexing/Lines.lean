import NoteShell.Proofs.Lexing.Places

/-!
# The lines of tokens

The line of a token is the line of the place where its word stands, counted by the ends of lines
before that place. Whatever a step of the scan takes, it finds the words among it with their lines
and counts the ends of lines among it.

## Main definitions

* `CarriesFrom` : characters that consist of words with their lines and of what is skipped.
* `Scan.Advances` : from one position to another a scan takes characters with their words.
* `SourceError.IsWithin` : the lines that an error names.

## Main results

* `Scan.advances_of_step` : what a step takes, with its lines.
* `Scan.carriesFrom_of_run`, `Scan.isWithin_of_run` : what a run takes and which lines its error
  names.
* `lines_of_tokenize` : the lines of tokens and of errors.
-/

namespace NoteShell.Grammar

open NoteShell.Decimal NoteShell.Text

variable {cs cs' rest : List Char} {k : TokenKind}

/-! ### Words with their lines -/

/-- The tokens that stand for characters within a line. -/
def words (ts : List Token) : List Token := ts.filter (·.kind.isWord)

/-- From the given line on, the characters `cs`, followed by `rest`, consist of the words `ts`, each
with the line on which it begins, and of what is skipped between them. -/
inductive CarriesFrom : (line : Nat) → (cs : List Char) → (ts : List Token) → (rest : List Char) → Prop
  | nil (line : Nat) (rest : List Char) : CarriesFrom line [] [] rest
  | skip {line : Nat} {cs cs' rest : List Char} {ts : List Token} (h : Skips cs (cs' ++ rest))
    (h' : CarriesFrom (line + cs.count '\n') cs' ts rest) : CarriesFrom line (cs ++ cs') ts rest
  | word {line : Nat} {cs cs' rest : List Char} {k : TokenKind} {ts : List Token}
    (h : Spells cs (cs' ++ rest) k) (h' : CarriesFrom (line + cs.count '\n') cs' ts rest) :
    CarriesFrom line (cs ++ cs') (⟨k, line⟩ :: ts) rest

namespace CarriesFrom

variable {line : Nat} {t : Token} {ts ts' us vs : List Token}

theorem carries (h : CarriesFrom line cs ts rest) : Carries cs (kinds ts) rest := by
  induction h with
  | nil => exact .nil _
  | skip h _ ih => exact .skip h ih
  | word h _ ih => exact .word h ih

theorem append (h : CarriesFrom line cs ts (cs' ++ rest))
    (h' : CarriesFrom (line + cs.count '\n') cs' ts' rest) :
    CarriesFrom line (cs ++ cs') (ts ++ ts') rest := by
  generalize hmore : cs' ++ rest = more at h
  induction h with
  | nil => exact h'
  | skip h _ ih =>
    subst hmore
    rw [List.append_assoc]
    rw [List.count_append, ← Nat.add_assoc] at h'
    exact .skip (by rwa [List.append_assoc]) (ih h' rfl)
  | word h _ ih =>
    subst hmore
    rw [List.append_assoc]
    rw [List.count_append, ← Nat.add_assoc] at h'
    exact .word (by rwa [List.append_assoc]) (ih h' rfl)

/-- Each of the words has its place and the line of this place. -/
theorem split (h : CarriesFrom line cs (us ++ t :: vs) rest) :
    ∃ before lexeme after, cs = before ++ (lexeme ++ after) ∧
      Carries before (kinds us) (lexeme ++ (after ++ rest)) ∧ Spells lexeme (after ++ rest) t.kind ∧
      Carries after (kinds vs) rest ∧ t.line = line + before.count '\n' := by
  generalize hts : us ++ t :: vs = ts at h
  induction h generalizing us with
  | nil => cases us <;> cases hts
  | @skip line cs cs' rest ts h h' ih =>
    obtain ⟨before, lexeme, after, rfl, hbefore, hspells, hafter, hline⟩ := ih hts
    refine ⟨cs ++ before, lexeme, after, by rw [List.append_assoc], .skip ?_ hbefore,
      hspells, hafter, ?_⟩
    · simpa only [List.append_assoc] using h
    · rw [hline, List.count_append, Nat.add_assoc]
  | @word line cs cs' rest k ts h h' ih =>
    cases us with
    | nil =>
      cases hts
      exact ⟨[], cs, cs', rfl, .nil _, h, h'.carries, rfl⟩
    | cons u us =>
      cases hts
      obtain ⟨before, lexeme, after, rfl, hbefore, hspells, hafter, hline⟩ := ih rfl
      refine ⟨cs ++ before, lexeme, after, by rw [List.append_assoc], .word ?_ hbefore,
        hspells, hafter, ?_⟩
      · simpa only [List.append_assoc] using h
      · rw [hline, List.count_append, Nat.add_assoc]

end CarriesFrom

/-! ### What a step takes -/

theorem Spells.isWord (h : Spells cs rest k) : k.isWord = true := by
  cases h with
  | number _ h => exact (isWord_scanNumber h).1
  | name | symbol => rfl
  | text => split_ifs <;> rfl

namespace Scan

variable {s t u : Scan}

/-- From `s` to `t` a scan takes characters. The words among them are found with their lines, and
the ends of lines among them are counted. -/
def Advances (s t : Scan) : Prop :=
  ∃ cs ts, s.rest = cs ++ t.rest ∧ CarriesFrom s.line cs ts t.rest ∧ t.line = s.line + cs.count '\n' ∧
    words t.found = ts.reverse ++ words s.found

theorem Advances.trans (h : s.Advances t) (h' : t.Advances u) : s.Advances u := by
  obtain ⟨cs, ts, hrest, hcarries, hline, hwords⟩ := h
  obtain ⟨cs', ts', hrest', hcarries', hline', hwords'⟩ := h'
  refine ⟨cs ++ cs', ts ++ ts', by rw [hrest, hrest', List.append_assoc], ?_, ?_, ?_⟩
  · rw [hrest'] at hcarries
    exact hcarries.append (hline ▸ hcarries')
  · rw [hline', hline, List.count_append, Nat.add_assoc]
  · rw [hwords', hwords, List.reverse_append, List.append_assoc]

/-- Other tokens than words do not matter. -/
theorem Advances.of_eq (hrest : s.rest = t.rest) (hline : t.line = s.line)
    (hwords : words t.found = words s.found) : s.Advances t :=
  ⟨[], [], hrest, .nil _ _, hline, hwords⟩

theorem Advances.skip (hrest : s.rest = cs ++ t.rest) (h : Skips cs t.rest)
    (hline : t.line = s.line + cs.count '\n') (hwords : words t.found = words s.found) :
    s.Advances t := by
  refine ⟨cs, [], hrest, ?_, hline, hwords⟩
  have hskip : CarriesFrom s.line (cs ++ []) [] t.rest := .skip h (.nil _ _)
  rwa [List.append_nil] at hskip

theorem Advances.word (hrest : s.rest = cs ++ t.rest) (h : Spells cs t.rest k)
    (hline : t.line = s.line + cs.count '\n') (hfound : t.found = ⟨k, s.line⟩ :: s.found) :
    s.Advances t := by
  refine ⟨cs, [⟨k, s.line⟩], hrest, ?_, hline, ?_⟩
  · have hword : CarriesFrom s.line (cs ++ []) [⟨k, s.line⟩] t.rest := .word h (.nil _ _)
    rwa [List.append_nil] at hword
  · have hword := h.isWord
    simp [words, hfound, hword]

/-- A text takes the ends of lines in it. -/
theorem Advances.text {word : List Char} {q : Quotes} {isFormatted : Bool}
    {text : String} {line : Nat}
    (hword : IsTextWord word q.raw isFormatted) (hmark : q.mark = '\'' ∨ q.mark = '"')
    (hsingle : q.triple = false → ¬ [q.mark, q.mark] <+: cs)
    (hs : s.rest = word ++ (q.opening ++ cs))
    (hread : scanText q 0 s.line [] cs = .ok (text, line, t.rest)) (hline : t.line = line)
    (hfound : t.found = ⟨if isFormatted then .formatted text else .str text, s.line⟩ :: s.found) :
    s.Advances t := by
  have hnewline : q.mark ≠ '\n' := by rcases hmark with hmark | hmark <;> rw [hmark] <;> decide
  obtain ⟨body, rfl, -, hlines⟩ := scanText_lines hnewline hread
  have hcount : (word ++ (q.opening ++ body)).count '\n' = body.count '\n' := by
    have hletters : '\n' ∉ word := fun hmem => absurd (hword.isTextLetter _ hmem) (by decide)
    have hopening : '\n' ∉ q.opening := by
      unfold Quotes.opening
      split_ifs <;> simp [hnewline.symm]
    rw [List.count_append, List.count_append, List.count_eq_zero.mpr hletters,
      List.count_eq_zero.mpr hopening, Nat.zero_add, Nat.zero_add]
  have hsame := hread.symm.trans (hlines s.line)
  simp only [List.drop_zero, Except.ok.injEq, Prod.mk.injEq, true_and, and_true] at hsame
  refine .word (by simpa only [List.append_assoc] using hs)
    (.text hword hmark hsingle hlines) ?_ hfound
  rw [hline, hsame, hcount]

theorem advances_takeText {word tail : List Char} {raw isFormatted : Bool} {mark : Char}
    (hword : IsTextWord word raw isFormatted) (hmark : mark = '\'' ∨ mark = '"')
    (hs : s.rest = word ++ mark :: tail) (h : s.takeText raw isFormatted (mark :: tail) = .ok t) :
    s.Advances t := by
  obtain ⟨text, line, rest, hread, rfl⟩ := takeText_eq_ok h
  by_cases htriple : [mark, mark].isPrefixOf tail = true
  · obtain ⟨cs, rfl⟩ := List.isPrefixOf_iff_prefix.mp htriple
    rw [htriple] at hread
    exact .text (q := ⟨mark, true, raw⟩) hword hmark (by simp) hs hread rfl rfl
  · have hsingle := mt List.isPrefixOf_iff_prefix.mpr htriple
    rw [Bool.not_eq_true] at htriple
    rw [htriple] at hread
    exact .text (q := ⟨mark, false, raw⟩) hword hmark (fun _ => hsingle) hs hread rfl rfl

theorem advances_takeName {c : Char} (hs : s.rest = c :: cs) (hc : isNameStart c = true)
    (h : s.takeName = .ok t) : s.Advances t := by
  have hsplit := (List.takeWhile_append_dropWhile (p := isNamePart) (l := s.rest)).symm
  rcases takeName_cases h with ⟨raw, isFormatted, mark, tail, hmarks, htail, hmark, htext⟩ | rfl
  · rw [htail] at hsplit
    exact advances_takeText (.inr hmarks) hmark hsplit htext
  · have hpart := isNamePart_of_isNameStart hc
    have hnewline : '\n' ∉ s.rest.takeWhile isNamePart := fun hmem =>
      absurd (List.mem_takeWhile_imp hmem) (by decide +kernel)
    rw [hs, List.takeWhile_cons_of_pos hpart] at hnewline
    simp only [hs, List.takeWhile_cons_of_pos hpart, List.dropWhile_cons_of_pos hpart] at hsplit ⊢
    have hname : Spells (c :: cs.takeWhile isNamePart) (cs.dropWhile isNamePart) _ :=
      .name hc (fun d => List.mem_takeWhile_imp) of_mem_head?_dropWhile
    refine .word (s := s) (hs.trans hsplit) hname ?_ rfl
    exact (congrArg (s.line + ·) (List.count_eq_zero.mpr hnewline)).symm

theorem advances_takeNumber {c : Char} (hs : s.rest = c :: cs) (hc : c.isDigit = true ∨ c = '.')
    (h : s.takeNumber = .ok t) : s.Advances t := by
  obtain ⟨k, rest, hread, rfl⟩ := takeNumber_eq_ok h
  rw [hs] at hread
  obtain ⟨used, rfl, hparts⟩ := exists_used_of_scanNumber hc hread
  have hnewline : '\n' ∉ c :: used := fun hmem => absurd (hparts _ hmem) (by decide)
  refine .word (s := s) hs (.number hc hread) ?_ rfl
  exact (congrArg (s.line + ·) (List.count_eq_zero.mpr hnewline)).symm

theorem advances_takeSymbol {c : Char} (h : s.takeSymbol c = .ok t) : s.Advances t := by
  obtain ⟨symbol, hsymbol, rfl⟩ := takeSymbol_eq_ok h
  have hfront : symbol.chars <+: s.rest := by simpa using List.find?_some hsymbol
  have hrest := (List.prefix_iff_eq_append.mp hfront).symm
  have hnewline : symbol.chars.count '\n' = 0 := by cases symbol <;> decide
  refine .word (s := s) hrest (.symbol (hrest ▸ hsymbol)) ?_ rfl
  exact (congrArg (s.line + ·) hnewline).symm

theorem endLine_rest_line (s : Scan) : s.endLine.rest = s.rest ∧ s.endLine.line = s.line := by
  rw [endLine]
  split
  · split_ifs <;> exact ⟨rfl, rfl⟩
  · exact ⟨rfl, rfl⟩

theorem words_endLine (s : Scan) : words s.endLine.found = words s.found := by
  rcases s.found_endLine_cases with ⟨hsame, -⟩ | ⟨u, us, hfound, -, hend⟩
  · rw [hsame]
  · rw [hend, hfound]
    rfl

/-- A comment does not go past its line. -/
theorem advances_comment (hs : s.rest = '#' :: cs) (hrest : t.rest = dropComment cs)
    (hline : t.line = s.line) (hfound : t.found = s.found) : s.Advances t := by
  have hcomment : '\n' ∉ cs.takeWhile (· ≠ '\n') := fun hmem => by
    simpa using List.mem_takeWhile_imp hmem
  have hnone : ('#' :: cs.takeWhile (· ≠ '\n')).count '\n' = 0 :=
    List.count_eq_zero.mpr (List.not_mem_cons_of_ne_of_not_mem (by decide) hcomment)
  have hends : ∀ c ∈ t.rest.head?, c = '\n' := fun c hc => by
    rw [hrest, dropComment] at hc
    simpa using of_mem_head?_dropWhile c hc
  refine .skip ?_ (.comment hcomment hends) ?_ (by rw [hfound])
  · rw [hs, hrest, dropComment, List.cons_append, List.takeWhile_append_dropWhile]
  · rw [hline, hnone, Nat.add_zero]

theorem advances_blank {c : Char} (hs : s.rest = c :: t.rest)
    (hc : c ∈ [' ', '\t', '\x0c', '\r', '\n'])
    (hline : t.line = if c = '\n' then s.line + 1 else s.line)
    (hwords : words t.found = words s.found) :
    s.Advances t := by
  have hrest : s.rest = [c] ++ t.rest := hs
  refine .skip hrest (.blank hc _) ?_ hwords
  rw [hline]
  split_ifs with hnewline
  · rw [hnewline]
    rfl
  · rw [List.count_singleton, beq_false_of_ne hnewline]
    rfl

/-- What a step within a line takes. -/
theorem advances_of_lineStep (h : s.LineStep t) : s.Advances t := by
  cases h with
  | @blank c rest hs hc =>
    have hline : c ≠ '\n' := by
      rintro rfl
      exact absurd hc (by decide)
    exact advances_blank hs (List.mem_append_left ['\n'] hc) (if_neg hline).symm rfl
  | comment hs => exact advances_comment hs rfl rfl rfl
  | lineEnd hs =>
    exact advances_blank hs (by decide) (congrArg (· + 1) s.endLine_rest_line.2) s.words_endLine
  | innerLineEnd hs => exact advances_blank hs (by decide) rfl rfl
  | @brokenLine _ rest hcs hs =>
    rcases hcs with rfl | rfl
    · exact .skip hs (.brokenLine rest) rfl rfl
    · exact .skip hs (.brokenLineReturn rest) rfl rfl
  | text hmark hs h => exact advances_takeText (.inl ⟨rfl, rfl, rfl⟩) hmark hs h
  | number hs hc h => exact advances_takeNumber hs hc h
  | name hs hc h => exact advances_takeName hs hc h
  | symbol _ h => exact advances_takeSymbol h

/-- Blanks are skipped. -/
theorem carriesFrom_blanks (line : Nat) (h : ∀ c ∈ cs, c ∈ [' ', '\t', '\x0c']) (rest : List Char) :
    CarriesFrom line cs [] rest ∧ cs.count '\n' = 0 := by
  have hnewline : cs.count '\n' = 0 :=
    List.count_eq_zero.mpr fun hmem => absurd (h _ hmem) (by decide)
  refine ⟨?_, hnewline⟩
  induction cs with
  | nil => exact .nil line rest
  | cons c cs ih =>
    obtain ⟨hc, hcs⟩ := List.forall_mem_cons.mp h
    rw [List.count_cons, Nat.add_eq_zero_iff] at hnewline
    have hskip : Skips [c] (cs ++ rest) := .blank (List.mem_append_left ['\r', '\n'] hc) _
    refine .skip hskip ?_
    rw [List.count_singleton, hnewline.2]
    exact ih hcs hnewline.1

theorem words_closeBlocks (column line : Nat) (indents : List Nat) (found : List Token) :
    words (closeBlocks column line indents found).2 = words found := by
  induction indents generalizing found with
  | nil => rfl
  | cons level outer ih =>
    rw [closeBlocks]
    split_ifs
    · exact ih _
    · rfl

theorem advances_indentTo {column : Nat} (h : s.indentTo column = .ok t) : s.Advances t := by
  rw [indentTo] at h
  dsimp only at h
  split_ifs at h
  · cases h
    exact .of_eq rfl rfl rfl
  · cases h
    exact .of_eq rfl rfl (words_closeBlocks ..)
  · cases h
    exact .of_eq rfl rfl rfl

/-- The blanks in front of a line are skipped. -/
theorem advances_measureIndent {column column' : Nat} {rest : List Char}
    (h : measureIndent column s.rest = (column', rest)) : s.Advances { s with rest := rest } := by
  obtain ⟨blanks, hblanks, hmem⟩ := exists_blanks_of_measureIndent column s.rest
  rw [h] at hblanks
  obtain ⟨hcarries, hcount⟩ := carriesFrom_blanks s.line hmem rest
  exact ⟨blanks, [], hblanks, hcarries, by rw [hcount]; rfl, rfl⟩

/-- What a step takes. -/
theorem advances_of_step (h : s.step = .ok (some t)) : s.Advances t := by
  cases stepsTo_of_step h with
  | inLine _ h => exact advances_of_lineStep h
  | comment hs => exact (advances_measureIndent hs).trans (advances_comment rfl rfl rfl rfl)
  | carriageReturn hs =>
    exact (advances_measureIndent hs).trans (advances_blank rfl (by decide) rfl rfl)
  | blankLine hs => exact (advances_measureIndent hs).trans (advances_blank rfl (by decide) rfl rfl)
  | lineStart _ hs hu h =>
    exact (advances_measureIndent hs).trans ((advances_indentTo hu).trans (advances_of_lineStep h))

/-! ### What is found up to the end -/

theorem words_finish (s : Scan) : words s.finish = (words s.found).reverse := by
  have hclosing : words (List.replicate (s.endLine.indents.length - 1) ⟨.dedent, s.endLine.line⟩) =
      [] := by
    rw [words, List.filter_eq_nil_iff]
    intro u hu
    rw [List.eq_of_mem_replicate hu]
    exact Bool.false_ne_true
  have hreverse : words s.finish.reverse = words s.found := by
    rw [s.finish_reverse, words, List.filter_cons_of_neg Bool.false_ne_true,
      List.filter_append, ← words, hclosing, List.nil_append]
    exact s.words_endLine
  rw [← hreverse, words, words, List.filter_reverse, List.reverse_reverse]

/-- The rest of the text consists of the words that are still found, with their lines. -/
theorem carriesFrom_of_run {n : Nat} {tokens : List Token} (hn : s.rest.length < n)
    (h : s.run n = .ok tokens) :
    ∃ ts, words tokens = (words s.found).reverse ++ ts ∧ CarriesFrom s.line s.rest ts [] := by
  induction n generalizing s with
  | zero => omega
  | succ n ih =>
    rw [run] at h
    split at h
    · cases h
    · next hnone =>
      cases h
      exact ⟨[], by rw [s.words_finish, List.append_nil],
        (carriesFrom_blanks s.line (blanks_of_step_eq_none hnone) []).1⟩
    · next t ht =>
      have hlt := (takes_of_step ht).length_lt
      obtain ⟨cs, ts, hrest, hcarries, hline, hwords⟩ := advances_of_step ht
      obtain ⟨ts', hwords', hcarries'⟩ := ih (by omega) h
      refine ⟨ts ++ ts', ?_, ?_⟩
      · rw [hwords', hwords, List.reverse_append, List.reverse_reverse, List.append_assoc]
      · rw [← List.append_nil t.rest] at hcarries
        rw [hrest]
        exact hcarries.append (hline ▸ hcarries')

end Scan

/-! ### Lines of errors -/

/-- The lines that an error names lie between two others: its own line, and for a text that does not
end the line where it is given up. -/
structure SourceError.IsWithin (e : SourceError) (low high : Nat) : Prop where
  line : low ≤ e.line ∧ e.line ≤ high
  detectedAt : ∀ triple n, e.fault = .unterminatedText triple n → low ≤ n ∧ n ≤ high

theorem SourceError.IsWithin.mono {e : SourceError} {low low' high high' : Nat}
    (h : e.IsWithin low high)
    (hlow : low' ≤ low) (hhigh : high ≤ high') : e.IsWithin low' high' := by
  refine ⟨⟨hlow.trans h.line.1, h.line.2.trans hhigh⟩, fun triple n hfault => ?_⟩
  obtain ⟨hle, hle'⟩ := h.detectedAt triple n hfault
  exact ⟨hlow.trans hle, hle'.trans hhigh⟩

/-- What can be wrong with a number. -/
def numberFaults : List Fault := [.invalidInteger, .invalidDecimal, .integerTooLarge]

theorem mem_numberFaults_of_scanNumber {f : Fault} (h : scanNumber cs = .error f) :
    f ∈ numberFaults := by
  have hend {cs : List Char} {f : Fault} (h : checkNumberEnd cs = .error f) : f ∈ numberFaults := by
    unfold checkNumberEnd at h
    split at h
    · split_ifs at h
      cases h
      decide
    · cases h
  have hradix {base : Nat} {cs : List Char} (h : scanRadix base cs = .error f) :
      f ∈ numberFaults := by
    simp only [scanRadix, bind, Except.bind] at h
    split at h
    · cases h
      decide
    · split at h
      · next hcheck =>
        cases h
        exact hend hcheck
      · cases h
  have hdecimal {cs : List Char} (h : scanDecimal cs = .error f) : f ∈ numberFaults := by
    simp only [scanDecimal, bind, Except.bind] at h
    split at h
    · next hcheck =>
      cases h
      exact hend hcheck
    · split_ifs at h <;> split at h <;> cases h <;> decide
  unfold scanNumber at h
  split at h
  · split at h
    · exact hradix h
    · exact hdecimal h
  · exact hdecimal h

/-- A text that does not end is given up on one of its lines. -/
theorem scanText_error {q : Quotes} {skip line : Nat} {acc : List Char} {f : Fault}
    (h : scanText q skip line acc cs = .error f) :
    ∃ triple n, f = .unterminatedText triple n ∧ line ≤ n ∧
      n ≤ line + (cs.drop skip).count '\n' := by
  fun_induction scanText q skip line acc cs with
  | case1 | case5 =>
    cases h
    exact ⟨_, _, rfl, Nat.le_refl _, Nat.le_add_right _ _⟩
  | case2 _ _ _ _ _ ih => exact ih h
  | case3 => cases h
  | case4 line acc cs _ _ ih =>
    obtain ⟨triple, n, rfl, hle, hle'⟩ := ih h
    refine ⟨triple, n, rfl, by omega, ?_⟩
    rw [List.drop_zero] at hle' ⊢
    rw [List.count_cons_self]
    omega
  | case6 _ _ _ _ ih => exact ih h
  | case7 line acc next cs line₁ _ _ _ ih =>
    obtain ⟨triple, n, rfl, hle, hle'⟩ := ih h
    by_cases hnext : next = '\n'
    · have hline : line₁ = line + 1 := if_pos hnext
      refine ⟨triple, n, rfl, by omega, ?_⟩
      simp only [hnext, List.drop_succ_cons, List.drop_zero, List.count_cons] at hle' ⊢
      simp
      omega
    · have hline : line₁ = line := if_neg hnext
      refine ⟨triple, n, rfl, by omega, ?_⟩
      simp only [List.drop_succ_cons, List.drop_zero, List.count_cons] at hle' ⊢
      omega
  | case8 line acc cs _ _ line₁ _ ih =>
    obtain ⟨triple, n, rfl, hle, hle'⟩ := ih h
    have hline : line₁ = line + 1 := rfl
    refine ⟨triple, n, rfl, by omega, ?_⟩
    simp only [List.drop_succ_cons, List.drop_zero, List.count_cons] at hle' ⊢
    simp
    omega
  | case9 line acc next cs line₁ _ hnext image taken _ _ _ ih =>
    obtain ⟨triple, n, rfl, hle, hle'⟩ := ih h
    have hline : line₁ = line := if_neg hnext
    have hdrop := (List.drop_sublist taken (next :: cs)).count_le '\n'
    refine ⟨triple, n, rfl, by omega, ?_⟩
    rw [List.drop_zero, List.count_cons_of_ne (by decide)]
    omega
  | case10 line acc c cs _ _ _ ih =>
    obtain ⟨triple, n, rfl, hle, hle'⟩ := ih h
    refine ⟨triple, n, rfl, hle, ?_⟩
    rw [List.drop_zero] at hle' ⊢
    rw [List.count_cons]
    omega

namespace Scan

variable {s t : Scan} {e : SourceError}

/-- Apart from texts that do not end, an error names the line where it is found. -/
theorem isWithin_of_ne {f : Fault} (hf : ∀ triple n, f ≠ .unterminatedText triple n) (s : Scan) :
    SourceError.IsWithin ⟨f, s.line⟩ s.line (s.line + s.rest.count '\n') :=
  ⟨⟨Nat.le_refl _, Nat.le_add_right _ _⟩, fun triple n hfault => absurd hfault (hf triple n)⟩

theorem isWithin_takeText {raw isFormatted : Bool} {mark : Char} {tail : List Char}
    (hs : mark :: tail <:+ s.rest) (h : s.takeText raw isFormatted (mark :: tail) = .error e) :
    e.IsWithin s.line (s.line + s.rest.count '\n') := by
  rw [takeText] at h
  dsimp only at h
  split at h
  · next fault hread =>
    cases h
    obtain ⟨triple, n, rfl, hle, hle'⟩ := scanText_error hread
    refine ⟨⟨Nat.le_refl _, Nat.le_add_right _ _⟩, ?_⟩
    rintro _ _ ⟨⟩
    have htail := (suffix_of_quotes mark tail).trans (List.suffix_cons mark tail)
    have hcount := (htail.trans hs).sublist.count_le '\n'
    rw [List.drop_zero] at hle'
    omega
  · cases h

theorem isWithin_takeNumber (h : s.takeNumber = .error e) :
    e.IsWithin s.line (s.line + s.rest.count '\n') := by
  rw [takeNumber] at h
  split at h
  · next hread =>
    cases h
    refine s.isWithin_of_ne ?_
    rintro triple n rfl
    have hmem := mem_numberFaults_of_scanNumber hread
    simp [numberFaults] at hmem
  · cases h

theorem isWithin_takeName (h : s.takeName = .error e) :
    e.IsWithin s.line (s.line + s.rest.count '\n') := by
  rw [takeName] at h
  split at h
  · next hquoted _ =>
    obtain ⟨mark, tail, htail, -⟩ := eq_cons_of_startsQuoted hquoted
    rw [htail] at h
    exact isWithin_takeText (htail ▸ List.dropWhile_suffix _) h
  · cases h

theorem isWithin_takeSymbol {c : Char} (h : s.takeSymbol c = .error e) :
    e.IsWithin s.line (s.line + s.rest.count '\n') := by
  rw [takeSymbol] at h
  split at h
  · cases h
    exact s.isWithin_of_ne (by simp)
  · cases h

theorem isWithin_indentTo {column : Nat} (h : s.indentTo column = .error e) :
    e.IsWithin s.line (s.line + s.rest.count '\n') := by
  rw [indentTo] at h
  dsimp only at h
  split_ifs at h <;> cases h <;> exact s.isWithin_of_ne (by simp)

theorem isWithin_takeInLine (h : s.takeInLine = .error e) :
    e.IsWithin s.line (s.line + s.rest.count '\n') := by
  have hmap {x : Except SourceError Scan} (hx : x.map some = .error e) : x = .error e := by
    cases x <;> cases hx
    rfl
  rw [takeInLine] at h
  split at h
  · cases h
  · next c rest hs =>
    split_ifs at h
    all_goals first
      | cases h
      | exact isWithin_takeNumber (hmap h)
      | exact isWithin_takeName (hmap h)
      | exact isWithin_takeSymbol (hmap h)
      | skip
    rw [hs] at h
    exact isWithin_takeText (hs ▸ List.suffix_refl _) (hmap h)

/-- The lines of the text that is left later are lines of the text that is left now. -/
theorem Advances.isWithin (h : s.Advances t) (he : e.IsWithin t.line (t.line + t.rest.count '\n')) :
    e.IsWithin s.line (s.line + s.rest.count '\n') := by
  obtain ⟨cs, -, hrest, -, hline, -⟩ := h
  refine he.mono (by omega) ?_
  rw [hline, hrest, List.count_append, Nat.add_assoc]

/-- An error of a step names lines of the text that is left. -/
theorem isWithin_of_step (h : s.step = .error e) :
    e.IsWithin s.line (s.line + s.rest.count '\n') := by
  rw [step] at h
  split_ifs at h
  · split at h
    next column rest hmeasure =>
    refine (advances_measureIndent hmeasure).isWithin ?_
    split at h
    · cases h
    · split_ifs at h
      dsimp only at h
      split at h
      · next u hu => exact (advances_indentTo hu).isWithin (isWithin_takeInLine h)
      · next hu =>
        cases h
        exact isWithin_indentTo hu
  · exact isWithin_takeInLine h

/-- An error names lines of the text that is left. -/
theorem isWithin_of_run {n : Nat} (h : s.run n = .error e) :
    e.IsWithin s.line (s.line + s.rest.count '\n') := by
  induction n generalizing s with
  | zero => cases h
  | succ n ih =>
    rw [run] at h
    split at h
    · next hstep =>
      cases h
      exact isWithin_of_step hstep
    · cases h
    · next t ht => exact (advances_of_step ht).isWithin (ih h)

end Scan

/-- A token that stands for characters within a line has exactly one place in the source text, and
its line is the number of the ends of lines before that place, counted from one. An error names
lines of the source text. -/
theorem lines_of_tokenize (source : String) :
    (∀ tokens, tokenize source = .ok tokens → ∀ earlier t later, tokens = earlier ++ t :: later →
      t.kind.isWord = true →
        ∃ before, StandsAt source.toList (kinds (words earlier)) t.kind (kinds (words later)) before ∧
          t.line = 1 + before.count '\n' ∧
          ∀ before', StandsAt source.toList (kinds (words earlier)) t.kind (kinds (words later)) before' →
            before' = before) ∧
    ∀ e, tokenize source = .error e → e.IsWithin 1 (1 + source.toList.count '\n') := by
  refine ⟨?_, fun e h => Scan.isWithin_of_run h⟩
  rintro tokens h earlier t later rfl ht
  obtain ⟨ts, hwords, hcarries⟩ := Scan.carriesFrom_of_run (Nat.lt_succ_self _) h
  have hsplit : words earlier ++ t :: words later = ts := by
    have hword : words (t :: later) = t :: words later := List.filter_cons_of_pos ht
    rw [← hword, words, words, ← List.filter_append]
    exact hwords
  obtain ⟨before, lexeme, after, hsource, hbefore, hspells, hafter, hline⟩ :=
    (hsplit ▸ hcarries).split
  rw [List.append_nil] at hbefore hspells
  have hplace : StandsAt source.toList (kinds (words earlier))
      t.kind (kinds (words later)) before :=
    ⟨lexeme, after, hsource, hbefore, hspells, hafter⟩
  exact ⟨before, hplace, hline, fun before' h' => h'.unique hplace⟩

/-- The plus sign behind a broken line and a text of two lines is on the third line, and a text that
does not end names the line where it begins. -/
theorem lines_of_tokenize_joined :
    (∃ earlier later before,
      tokenize "x = \\\n rf'''a\nb''' + 1" = .ok (earlier ++ ⟨.symbol .plus, 3⟩ :: later) ∧
        TokenKind.isWord (.symbol .plus) = true ∧
        StandsAt "x = \\\n rf'''a\nb''' + 1".toList (kinds (words earlier)) (.symbol .plus)
          (kinds (words later)) before ∧ before.count '\n' = 2) ∧
    tokenize "(\n'a\n" = .error ⟨.unterminatedText false 2, 2⟩ ∧
      SourceError.IsWithin ⟨.unterminatedText false 2, 2⟩ 1 3 := by
  have htokens : tokenize "x = \\\n rf'''a\nb''' + 1" = .ok
      ([⟨.name "x", 1⟩, ⟨.symbol .assign, 1⟩, ⟨.formatted "a\nb", 2⟩] ++ ⟨.symbol .plus, 3⟩ ::
        [⟨.int 1, 3⟩, ⟨.newline, 3⟩, ⟨.finish, 3⟩]) := by rfl
  have herror : tokenize "(\n'a\n" = .error ⟨.unterminatedText false 2, 2⟩ := by rfl
  obtain ⟨before, hplace, hline, -⟩ := (lines_of_tokenize _).1 _ htokens _ _ _ rfl rfl
  have hcount : before.count '\n' = 2 := Nat.add_left_cancel hline.symm
  exact ⟨⟨_, _, before, htokens, rfl, hplace, hcount⟩, herror, (lines_of_tokenize _).2 _ herror⟩

end NoteShell.Grammar
