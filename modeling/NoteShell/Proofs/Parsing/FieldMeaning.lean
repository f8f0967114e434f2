import NoteShell.Proofs.Lexing.Consumption
import NoteShell.Proofs.Lexing.Lexeme
import NoteShell.Proofs.Lexing.Literal
import NoteShell.Proofs.Lexing.Trimmed
import NoteShell.Proofs.Parsing.Nesting
import NoteShell.Proofs.Parsing.RoundTrip

/-!
# What an expression means inside a formatted text

The body of a formatted text is scanned twice: first as a text, whose escapes are decoded, and then
the source of each field on its own. What an expression means inside a formatted text is therefore
what its decoded characters mean, provided that the end of the field is found at the brace that is
meant, which takes quotes and brackets that are closed one character at a time.

## Main results

* `exists_decoded` : what is written between quotes and braces stands for a text between braces.
* `parseExpression_quoted`, `parseExpression_formatted` : sources that are a single text.
* `closesAll_of_parseExpression` : an expression without escapes, comments and triple quotes is
  closed.
* `parseExpression_trim` : blanks around an expression do not matter.
* `parseExpression_braced` : an expression as the only field of a formatted text.
-/

namespace NoteShell.Grammar

open NoteShell.Text NoteShell.Grammar.Parser

/-! ### What is written between quotes -/

/-- The quotes around a text of one line. -/
def doubleQuotes : Quotes := ⟨'"', false, false⟩

/-- What is written in braces between quotes stands for some text, followed by the closing brace. -/
theorem exists_decoded {cs : List Char} (hquote : '"' ∉ cs) (hline : '\n' ∉ cs) {skip : Nat}
    (hskip : skip ≤ cs.length) (line : Nat) (acc : List Char) :
    ∃ decoded, scanText doubleQuotes skip line acc (cs ++ ['}', '"']) =
        .ok (String.ofList (acc.reverse ++ decoded ++ ['}']), line, []) ∧
      (skip = 0 → '\\' ∉ cs → decoded = cs) := by
  induction cs generalizing skip acc with
  | nil =>
    obtain rfl := Nat.le_zero.mp hskip
    exact ⟨[], by simp [scanText, doubleQuotes], fun _ _ => rfl⟩
  | cons c cs ih =>
    rw [List.mem_cons, not_or] at hquote hline
    cases skip with
    | succ skip =>
      obtain ⟨decoded, hscan, -⟩ := ih hquote.2 hline.2 (Nat.le_of_succ_le_succ hskip) acc
      exact ⟨decoded, hscan, fun hzero => absurd hzero (Nat.succ_ne_zero skip)⟩
    | zero =>
      have hmark : c ≠ doubleQuotes.mark := Ne.symm hquote.1
      by_cases hback : c = '\\'
      · subst hback
        cases cs with
        | nil =>
          refine ⟨['\\'], ?_, fun _ hnone => absurd List.mem_cons_self hnone⟩
          simp [scanText, doubleQuotes, decodeEscape]
        | cons next tail =>
          have hnext : next ≠ '\n' := fun hnext => hline.2 (hnext ▸ List.mem_cons_self)
          have hdigits : ∀ c ∈ ['}', '"'].head?, EndsDigits c := by
            rintro c ⟨⟩
            exact ⟨by decide, by decide, by decide⟩
          have hescape : decodeEscape next (tail ++ ['}', '"']) = decodeEscape next tail :=
            decodeEscape_append next hdigits
          obtain ⟨decoded, hscan, -⟩ := ih hquote.2 hline.2 (decodeEscape_taken_le next tail)
            ((decodeEscape next tail).1.reverseAux acc)
          refine ⟨(decodeEscape next tail).1 ++ decoded, ?_, fun _ hnone =>
            absurd List.mem_cons_self hnone⟩
          rw [List.cons_append, List.cons_append,
            scanText_escape (fun hclose => hmark hclose.1) rfl hnext,
            hescape, ← List.cons_append, hscan, List.reverseAux_eq]
          simp
      · have hstep : scanText doubleQuotes 0 line acc (c :: cs ++ ['}', '"']) =
            scanText doubleQuotes 0 line (c :: acc) (cs ++ ['}', '"']) :=
          scanText_plain (fun hclose => hmark hclose.1) (Ne.symm hline.1) hback
        obtain ⟨decoded, hscan, hplain⟩ := ih hquote.2 hline.2 (Nat.zero_le _) (c :: acc)
        refine ⟨c :: decoded, by rw [hstep, hscan]; simp, fun _ hnone => ?_⟩
        rw [hplain rfl fun hmem => hnone (List.mem_cons_of_mem _ hmem)]

/-! ### Tokens -/

/-- The token that is written with quotes. -/
def quotedKind (isFormatted : Bool) (text : String) : TokenKind :=
  if isFormatted then .formatted text else .str text

/-- The characters of a text between quotes, with or without the letter for a formatted text. -/
def quotedChars (isFormatted : Bool) (cs : List Char) : List Char :=
  if isFormatted then 'f' :: '"' :: cs else '"' :: cs

/-- A source that is a text between quotes has a single token. -/
theorem tokenize_quoted (isFormatted : Bool) {cs : List Char} {text : String} {line : Nat}
    (hcs : ['"', '"'].isPrefixOf cs = false)
    (h : scanText doubleQuotes 0 1 [] cs = .ok (text, line, [])) :
    tokenize (String.ofList (quotedChars isFormatted cs)) =
      .ok [⟨quotedKind isFormatted text, 1⟩, ⟨.newline, line⟩, ⟨.finish, line⟩] := by
  have htext (s : Scan) (hs : s.line = 1) : s.takeText false isFormatted ('"' :: cs) =
      .ok { s with rest := [], line := line, found :=
        ⟨quotedKind isFormatted text, 1⟩ :: s.found } := by
    rw [Scan.takeText]
    dsimp only
    rw [hcs, hs, if_neg Bool.false_ne_true, ← doubleQuotes, h]
    rfl
  have hstep : (Scan.start (quotedChars isFormatted cs)).step =
      .ok (some ⟨[], line, 0, false, [0], [⟨quotedKind isFormatted text, 1⟩]⟩) := by
    cases isFormatted with
    | false =>
      have hquoted : ({ Scan.start ('"' :: cs) with atLineStart := false } : Scan).step =
          (Scan.takeText { Scan.start ('"' :: cs) with atLineStart := false } false false
            ('"' :: cs)).map some := rfl
      exact (step_start rfl cs).trans (by rw [hquoted, htext _ rfl]; rfl)
    | true =>
      have hname : ({ Scan.start ('f' :: '"' :: cs) with atLineStart := false } : Scan).step =
          (Scan.takeText { Scan.start ('f' :: '"' :: cs) with atLineStart := false } false true
            ('"' :: cs)).map some := rfl
      exact (step_start rfl ('"' :: cs)).trans (by rw [hname, htext _ rfl]; rfl)
  have hkind : (quotedKind isFormatted text).isNewline = false := by cases isFormatted <;> rfl
  rw [tokenize, String.toList_ofList, Scan.run, hstep]
  refine (Scan.run_nil ⟨[], line, 0, false, [0], [⟨quotedKind isFormatted text, 1⟩]⟩ _).trans ?_
  simp [Scan.finish, Scan.endLine, hkind, Scan.push]

/-! ### Sources that are a single text -/

variable {cs : List Char} {text : String} {line : Nat} {e : Expr}

/-- A text between quotes is an expression. -/
theorem parseExpression_quoted (hcs : ['"', '"'].isPrefixOf cs = false)
    (h : scanText doubleQuotes 0 1 [] cs = .ok (text, line, [])) :
    parseExpression (String.ofList (quotedChars false cs)) = .ok (.str text) := by
  rw [parseExpression_of_tokens (tokenize_quoted false hcs h)]
  have hscopes : (Expr.str text).scopes = 0 := rfl
  exact (singleExpression_of_tokens _ (.str text) 0 1 rfl).1 (by rw [hscopes]; decide)

/-- A single token that is a formatted text is an expression. -/
theorem singleExpression_formatted {r : Reading} {t n f : Token} (ht : t.kind = .formatted text)
    (hn : n.kind = .newline) (hf : f.kind = .finish) (h : r.formatted text t.line = .ok e) :
    (singleExpression r).run' [t, n, f] = .ok e := by
  have hatom (next : Level) : Rank.Reads r next .atom e [t] True := by
    refine fun rest _ => ⟨fun _ => ?_, fun hfalse => absurd trivial hfalse⟩
    change Grammar.atom r next (t :: rest) = .ok (e, rest)
    simp only [Grammar.atom, headKind, headLine, ht, h, List.drop_succ_cons, List.drop_zero]
  have hopens : Rank.Opens .atom [t] := ⟨t, [], rfl, by rw [ht]; rfl⟩
  have hread (next : Level) : Rank.Reads r next .conditional e [t] True :=
    (hatom next).descend hopens (by decide)
  have hstops : Rank.Stops .conditional [n, f] := stops_of_endsLine (by rw [headKind, hn]; rfl)
  refine run'_eq_ok_iff.mpr ⟨[f], singleExpression_eq_ok_iff.mpr ⟨[n, f], ?_, ?_, hf⟩⟩
  · have hfront : dropNewlines [t, n, f] = [t] ++ [n, f] :=
      dropNewlines_of_opens (hopens.append [n, f])
    rw [hfront]
    exact (hread _ [n, f] hstops).goesOn trivial
  · simp [dropNewlines, hn, hf, TokenKind.isNewline]

/-- A formatted text between quotes is the expression that its body is. -/
theorem parseExpression_formatted (hcs : ['"', '"'].isPrefixOf cs = false)
    (h : scanText doubleQuotes 0 1 [] cs = .ok (text, line, []))
    (hread : readFormatted parseExpression text 1 = .ok e) :
    parseExpression (String.ofList (quotedChars true cs)) = .ok e := by
  have htokens := tokenize_quoted true hcs h
  have hlength := (weight_le_of_mem List.mem_cons_self).trans (weight_tokenize htokens)
  rw [parseExpression_of_tokens htokens]
  refine singleExpression_formatted rfl rfl rfl ?_
  exact (readFormatted_readSource (Nat.le_of_succ_le hlength) 1).trans hread

/-! ### Fields -/

variable {source : String}

/-- An expression without escapes, comments, triple quotes and ends of fields closes all quotes and
brackets. -/
theorem closesAll_of_parseExpression (hsimple : Simple source.toList)
    (h : parseExpression source = .ok e) : ClosesAll source.toList := by
  obtain ⟨tokens, htokens, hclosed⟩ := depthAfterAll_of_parseExpression h
  obtain ⟨u, hu, rfl, hafter⟩ := Scan.exists_after?_of_run (Scan.inOrder_start source.toList)
    (Nat.lt_succ_self _) hsimple htokens
  have hdepth : u.depth = 0 := by
    rw [hu.depth_eq, ← u.bracketDepth_finish_reverse, bracketDepth_reverse, hclosed]
  rw [hdepth] at hafter
  exact hafter

/-- Blanks around an expression of one line do not matter. -/
theorem parseExpression_trim (hline : '\n' ∉ source.toList) (h : parseExpression source = .ok e) :
    parseExpression (trim source) = .ok e := by
  obtain ⟨tokens, rest, htokens, -⟩ := exists_tokens_of_readSource h
  have hlength : (trim source).length < source.length + 1 :=
    Nat.lt_succ_of_le (length_trimWhile_le isBlank source)
  rw [← readSource_eq_parseExpression hlength, readSource, tokenize_trim hline htokens]
  rw [parseExpression, readSource, htokens] at h
  exact h

/-- A body that is a single field in braces. -/
theorem readFormatted_braced (hclosed : ClosesAll source.toList)
    (h : parseExpression (trim source) = .ok e) (line : Nat) :
    readFormatted parseExpression ("\x7b" ++ source ++ "\x7d") line =
      .ok (.formatted [.field e false none]) := by
  have hempty : (trimChars source.toList).isEmpty = false := by
    cases hchars : trimChars source.toList with
    | cons c cs => rfl
    | nil =>
      have htrim : trim source = "" := by
        rw [trim, trimWhile, ← trimChars, hchars, String.ofList_nil]
      rw [htrim] at h
      cases h
  have htake := takeField_of_closesAll hclosed []
  rw [hempty, if_neg Bool.false_ne_true] at htake
  have hread : parseExpression (String.ofList (trimChars source.toList)) = .ok e := h
  have hbrace : ∀ rest, source.toList ++ ['}'] ≠ '{' :: rest := by
    intro rest hsource
    cases hchars : source.toList with
    | nil => simp [hchars] at hsource
    | cons c cs =>
      rw [hchars, List.cons_append] at hsource
      rw [hchars, (List.cons.inj hsource).1] at hclosed
      cases hclosed
  have hbody : ("\x7b" ++ source ++ "\x7d").toList = '{' :: (source.toList ++ ['}']) := by simp
  rw [readFormatted, hbody, List.length_cons, splitBody, htake]
  · dsimp only
    rw [hread]
    rfl
  · exact hbrace

/-- An expression between braces and quotes: what the characters of the text stand for is an
expression of its own, and the expression is the only field of the formatted text, where all quotes
and brackets of the decoded characters are closed. -/
theorem parseExpression_braced (source : String) (hquote : '"' ∉ source.toList)
    (hline : '\n' ∉ source.toList) :
    ∃ decoded : String,
      parseExpression ("\"\x7b" ++ source ++ "\x7d\"") = .ok (.str ("\x7b" ++ decoded ++ "\x7d")) ∧
      ('\\' ∉ source.toList → decoded = source) ∧
      (∀ e, parseExpression (trim decoded) = .ok e → ClosesAll decoded.toList →
        parseExpression ("f\"\x7b" ++ source ++ "\x7d\"") = .ok (.formatted [.field e false none])) ∧
      ∀ e, parseExpression decoded = .ok e → '\n' ∉ decoded.toList →
        parseExpression (trim decoded) = .ok e ∧ (Simple decoded.toList → ClosesAll decoded.toList) := by
  obtain ⟨decoded, hscan, hplain⟩ := exists_decoded hquote hline (Nat.zero_le _) 1 ['{']
  have hopen : scanText doubleQuotes 0 1 [] ('{' :: (source.toList ++ ['}', '"'])) =
      .ok ("\x7b" ++ String.ofList decoded ++ "\x7d", 1, []) := by
    have hbody : "\x7b" ++ String.ofList decoded ++ "\x7d" =
        String.ofList (['{'].reverse ++ decoded ++ ['}']) := String.toList_inj.mp (by simp)
    rw [hbody]
    exact hscan
  have hwritten (isFormatted : Bool) :
      String.ofList (quotedChars isFormatted ('{' :: (source.toList ++ ['}', '"']))) =
        (if isFormatted then "f" else "") ++ "\"\x7b" ++ source ++ "\x7d\"" :=
    String.toList_inj.mp (by cases isFormatted <;> simp [quotedChars])
  refine ⟨String.ofList decoded, ?_, fun hback => ?_, fun e he hclosed => ?_, fun e he hline' => ?_⟩
  · exact (congrArg _ (hwritten false)).symm.trans (parseExpression_quoted rfl hopen)
  · rw [hplain rfl hback, String.ofList_toList]
  · refine (congrArg _ (hwritten true)).symm.trans (parseExpression_formatted rfl hopen ?_)
    exact readFormatted_braced hclosed he 1
  · exact ⟨parseExpression_trim hline' he, fun hsimple => closesAll_of_parseExpression hsimple he⟩

/-- A call whose argument is a closing bracket in quotes, as a field. -/
theorem parseExpression_braced_call :
    ∃ e, parseExpression "f(')')" = .ok e ∧
      parseExpression "f\"\x7bf(')')\x7d\"" = .ok (.formatted [.field e false none]) := by
  have hsimple : Simple "f(')')".toList := by
    refine ⟨by decide, by decide, List.all_iff_forall_prop.mp (by decide), fun q hq => ⟨?_, ?_⟩⟩ <;>
      rintro rfl <;> exact absurd hq (by decide)
  obtain ⟨decoded, -, hplain, hfield, hwhole⟩ :=
    parseExpression_braced "f(')')" (by decide) (by decide)
  obtain rfl := hplain (by decide)
  have hsome : (parseExpression "f(')')").toOption.isSome = true := by decide +kernel
  obtain ⟨e, he⟩ : ∃ e, parseExpression "f(')')" = .ok e := by
    cases he : parseExpression "f(')')" with
    | ok e => exact ⟨e, rfl⟩
    | error fault =>
      rw [he] at hsome
      cases hsome
  obtain ⟨htrim, hclosed⟩ := hwhole e he (by decide)
  exact ⟨e, he, hfield e htrim (hclosed hsimple)⟩

/-- An escape is decoded before the field is read, so that the line of the text ends within its
quotes. -/
theorem parseExpression_braced_escape :
    (∀ c ∈ "'\\n'".toList, c ≠ '"' ∧ c ≠ '\n' ∧ c ∉ fieldEnds) ∧
      (parseExpression "'\\n'").toOption.isSome = true ∧
      (parseExpression "f\"\x7b'\\n'\x7d\"").toOption.isSome = false := by
  refine ⟨List.all_iff_forall_prop.mp (by decide), ?_, ?_⟩ <;> decide +kernel

end NoteShell.Grammar
