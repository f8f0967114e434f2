import NoteShell.Proofs.Lexing.Weight
import NoteShell.Proofs.Parsing.Brackets
import NoteShell.Proofs.Parsing.Fields
import NoteShell.Proofs.Parsing.Sources

/-!
# Formatted texts inside formatted texts

The fields of a formatted text are source texts of their own, which are shorter than the text around
them. A source text is therefore read in the same way for every depth of nesting that is greater
than its length, and a field has the expression that its source has when it is read on its own.

## Main results

* `readSource_eq_parseExpression` : the depth of nesting does not matter.
* `readFormatted_readSource` : formatted texts are read with the fields read on their own.
* `depthAfterAll_of_readSource` : a source that is an expression closes all brackets that it opens.
-/

namespace NoteShell.Grammar

open NoteShell.Text NoteShell.Grammar.Parser

variable {read read' : String → Except SourceError Expr} {most depth depth' : Nat} {source : String}

/-- Readers that read all short sources alike split a body in the same way. -/
theorem splitBody_congr (h : ∀ source, source.length < most → read source = read' source)
    {line fuel : Nat} {pending : List Char} {pieces : List Piece} {cs : List Char}
    (hcs : cs.length ≤ most) :
    splitBody read line fuel pending pieces cs = splitBody read' line fuel pending pieces cs := by
  have hfield {cs rest : List Char} {field : FieldText} (htake : takeField cs = .ok (field, rest))
      (hcs : cs.length < most) : rest.length ≤ most ∧
        read (String.ofList (trimChars field.source)) =
          read' (String.ofList (trimChars field.source)) := by
    have hlength := length_takeField htake
    have htrim := length_dropEndWhile_le isBlank (field.source.dropWhile isBlank)
    have hdrop := (List.dropWhile_suffix isBlank (l := field.source)).length_le
    refine ⟨by omega, h _ ?_⟩
    rw [String.length_ofList, trimChars]
    omega
  fun_induction splitBody read line fuel pending pieces cs with
  | case1 => rw [splitBody]
  | case2 => rw [splitBody]
  | case3 _ _ _ _ ih | case4 _ _ _ _ ih =>
    simp only [List.length_cons] at hcs
    rw [splitBody, ih (by omega)]
  | case5 => rw [splitBody]; assumption
  | case6 _ _ _ _ _ _ htake =>
    rw [splitBody, htake]
    assumption
  | case7 _ _ _ _ _ _ _ htake _ hread =>
    rw [List.length_cons] at hcs
    rw [splitBody, htake]
    · dsimp only
      rw [← (hfield htake (by omega)).2, hread]
    · assumption
  | case8 _ _ _ _ _ _ _ htake _ hread _ ih =>
    rw [List.length_cons] at hcs
    rw [splitBody, htake]
    · dsimp only
      rw [← (hfield htake (by omega)).2, hread, ih (hfield htake (by omega)).1]
    · assumption
  | case9 _ _ _ _ _ _ _ _ _ ih =>
    rw [List.length_cons] at hcs
    rw [splitBody, ih (by omega)]
    all_goals assumption

/-- Readers that read all shorter sources alike read a formatted text in the same way. -/
theorem readFormatted_congr {body : String}
    (h : ∀ source, source.length < body.length → read source = read' source) (line : Nat) :
    readFormatted read body line = readFormatted read' body line := by
  rw [readFormatted, readFormatted, splitBody_congr h]
  rw [String.length_toList]

theorem weight_le_of_mem {t : Token} {ts : List Token} (h : t ∈ ts) :
    t.kind.weight ≤ weight ts := by
  obtain ⟨before, after, rfl⟩ := List.append_of_mem h
  rw [weight_append, weight_cons]
  omega

/-- A source text is read in the same way for all depths of nesting that are greater than its
length. -/
theorem readSource_congr (h : source.length < depth) (h' : source.length < depth') :
    readSource depth source = readSource depth' source := by
  induction depth generalizing depth' source with
  | zero => omega
  | succ depth ih =>
    obtain ⟨depth', rfl⟩ := Nat.exists_eq_succ_of_ne_zero (Nat.ne_zero_of_lt h')
    rw [readSource, readSource]
    cases htokens : tokenize source with
    | error e => simp only [bind, Except.bind]
    | ok tokens =>
      have hweight := weight_tokenize htokens
      have hr : Reading.Agree (· ∈ tokens)
          ⟨readFormatted (readSource depth), tokens.length⟩
          ⟨readFormatted (readSource depth'), tokens.length⟩ := by
        refine ⟨rfl, fun t ht body hbody => ?_⟩
        have hle := weight_le_of_mem ht
        rw [hbody, TokenKind.weight] at hle
        exact readFormatted_congr (fun field hfield => ih (by omega) (by omega)) t.line
      have heq := (agree_singleExpression hr fun t ht => ht).1
      change Except.map Prod.fst (singleExpression _ tokens) =
        Except.map Prod.fst (singleExpression _ tokens)
      rw [heq]

/-- The depth of nesting does not matter, as long as it is greater than the length of the source. -/
theorem readSource_eq_parseExpression (h : source.length < depth) :
    readSource depth source = parseExpression source :=
  readSource_congr h (Nat.lt_succ_self _)

/-- The fields of a formatted text have the expressions that their sources have on their own. -/
theorem readFormatted_readSource {body : String} (h : body.length ≤ depth) (line : Nat) :
    readFormatted (readSource depth) body line = readFormatted parseExpression body line :=
  readFormatted_congr (fun _ hfield => readSource_eq_parseExpression (by omega)) line

/-- The brackets of tokens that close all that they open, up to the end of the text. -/
theorem depthAfterAll_eq_zero {tokens rest : List Token} (htokens : tokenize source = .ok tokens)
    (hclosing : Closing 0 tokens rest) (hrest : headKind rest = .finish) :
    depthAfterAll 0 tokens = 0 := by
  obtain ⟨used, rfl, hused⟩ := hclosing
  obtain ⟨others, t, hsplit, ht, hothers⟩ := (blockStructured_of_tokenize htokens).finish_last
  rw [depthAfterAll_append, hused 0]
  cases rest with
  | nil => rfl
  | cons u rest =>
    -- The end of the text comes once, so nothing follows it.
    have hnil : rest = [] := by
      rcases List.eq_nil_or_concat rest with hnil | ⟨init, last, rfl⟩
      · exact hnil
      · have hinit : used ++ u :: init = others := by
          have hends : (used ++ u :: init) ++ [last] = others ++ [t] := by simpa using hsplit
          exact List.append_inj_left' hends rfl
        exact absurd hrest (hothers u (hinit ▸ by simp))
    subst hnil
    have hu : u.kind = .finish := hrest
    rw [depthAfterAll, List.foldl_cons, hu]
    rfl

/-- A source that is an expression closes all brackets that it opens. -/
theorem depthAfterAll_of_parseExpression {e : Expr} (h : parseExpression source = .ok e) :
    ∃ tokens, tokenize source = .ok tokens ∧ depthAfterAll 0 tokens = 0 := by
  obtain ⟨tokens, rest, htokens, hok⟩ := exists_tokens_of_readSource h
  have hr : Reading.Agree (fun _ => True) ⟨readFormatted (readSource source.length), tokens.length⟩
      ⟨readFormatted (readSource source.length), tokens.length⟩ := ⟨rfl, fun _ _ _ _ => rfl⟩
  have hclosing := (agree_singleExpression hr fun _ _ => trivial).2 hok
  obtain ⟨mid, -, rfl, hrest⟩ := singleExpression_eq_ok_iff.mp hok
  exact ⟨tokens, htokens, depthAfterAll_eq_zero htokens hclosing hrest⟩

end NoteShell.Grammar
