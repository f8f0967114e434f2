import NoteShell.Proofs.Lexing.Blocks
import NoteShell.Proofs.Parsing.Derivation

/-!
# Tokens weigh no more than they are written with

A token takes at least one character, and a text has no more characters than it is written with, the
quotes not counted: an escape stands for no more characters than it takes. The tokens of a source
text together therefore weigh no more than the source text has characters.

## Main definitions

* `Scan.load` : what a scan has found, and what is left.

## Main results

* `Scan.load_of_step` : a step never adds to the load.
* `weight_tokenize` : the weight of all tokens.
-/

namespace NoteShell.Grammar

open NoteShell.Text

theorem weight_append (ts us : List Token) : weight (ts ++ us) = weight ts + weight us := by
  induction ts with
  | nil => exact (Nat.zero_add _).symm
  | cons t ts ih => rw [List.cons_append, weight_cons, weight_cons, ih, Nat.add_assoc]

theorem weight_reverse (ts : List Token) : weight ts.reverse = weight ts := by
  induction ts with
  | nil => rfl
  | cons t ts ih =>
    rw [List.reverse_cons, weight_append, weight_cons, weight_cons, weight_nil, ih]
    omega

theorem weight_replicate {t : Token} (ht : t.kind.weight = 0) (n : Nat) :
    weight (List.replicate n t) = 0 := by
  induction n with
  | zero => rfl
  | succ n ih => rw [List.replicate_succ, weight_cons, ht, ih]

/-! ### Literals -/

theorem length_decodeEscape (c : Char) (rest : List Char) :
    (decodeEscape c rest).1.length ≤ (decodeEscape c rest).2 + 1 := by
  unfold decodeEscape
  split <;> first | exact Nat.le_refl 2 | decide | (split <;> simp)

/-- A text has fewer characters than it is written with, the closing quote among them. Characters of
an escape that is already decoded are yet to be skipped. -/
theorem length_scanText {q : Quotes} {skip line line' : Nat} {acc cs rest : List Char} {s : String}
    (h : scanText q skip line acc cs = .ok (s, line', rest)) :
    s.length + rest.length + skip < acc.length + cs.length := by
  fun_induction scanText q skip line acc cs with
  | case1 | case5 => cases h
  | case2 _ _ _ _ _ ih =>
    have hlt := ih h
    simp only [List.length_cons]
    omega
  | case3 =>
    obtain ⟨hs, -, hrest⟩ : _ = s ∧ _ = line' ∧ _ = rest := by simpa using h
    rw [← hs, ← hrest, String.length_ofList, List.length_reverse, List.length_cons]
    split_ifs
    · rw [List.length_drop]
      omega
    · omega
  | case4 _ _ _ _ _ ih | case6 _ _ _ _ ih | case7 _ _ _ _ _ _ _ _ ih | case8 _ _ _ _ _ _ _ ih
  | case10 _ _ _ _ _ _ _ ih =>
    have hlt := ih h
    simp only [List.length_cons] at hlt ⊢
    omega
  | case9 _ _ next tail _ _ _ image taken hdecode _ _ ih =>
    have hlt := ih h
    have himage : image.length ≤ taken + 1 := by
      simpa only [hdecode] using length_decodeEscape next tail
    rw [List.reverseAux_eq, List.length_append, List.length_reverse] at hlt
    simp only [List.length_cons] at hlt ⊢
    omega

/-! ### Steps -/

namespace Scan

variable {s t : Scan}

/-- The weight of the tokens that have been found, and the characters that are left. -/
def load (s : Scan) : Nat := weight s.found + s.rest.length

theorem load_takeText {raw isFormatted : Bool} {mark : Char} {tail : List Char}
    (h : s.takeText raw isFormatted (mark :: tail) = .ok t) :
    t.load ≤ weight s.found + (mark :: tail).length := by
  obtain ⟨text, line, rest, hscan, rfl⟩ := takeText_eq_ok h
  have hlt := length_scanText hscan
  have hdrop := (suffix_of_quotes mark tail).length_le
  have hkind : (if isFormatted then TokenKind.formatted text else .str text).weight =
      text.length + 1 := by
    cases isFormatted <;> rfl
  rw [load, weight_cons, hkind, List.length_cons]
  simp only [List.length_nil] at hlt
  dsimp only
  omega

theorem load_push (s : Scan) {k : TokenKind} (hk : k.weight = 1) {rest : List Char}
    (hrest : rest.length < s.rest.length) : ({ s with rest := rest }.push k).load ≤ s.load := by
  rw [push, load, load, weight_cons, hk]
  dsimp only
  omega

theorem isNamePart_of_isNameStart {c : Char} (h : isNameStart c = true) : isNamePart c = true := by
  rw [isNameStart, Bool.or_eq_true] at h
  rw [isNamePart, isAlphanumeric, Bool.or_eq_true, Bool.or_eq_true]
  tauto

theorem load_takeName {c : Char} {rest : List Char} (hs : s.rest = c :: rest)
    (hc : isNameStart c = true) (h : s.takeName = .ok t) : t.load ≤ s.load := by
  have hdrop : (s.rest.dropWhile isNamePart).length < s.rest.length := by
    rw [hs, List.dropWhile_cons_of_pos (isNamePart_of_isNameStart hc), List.length_cons,
      Nat.lt_succ_iff]
    exact (List.dropWhile_suffix _).length_le
  rcases takeName_cases h with ⟨_, _, mark, tail, -, htail, -, htext⟩ | rfl
  · refine Nat.le_trans (load_takeText htext) ?_
    rw [load, ← htail]
    omega
  · exact load_push s rfl hdrop

theorem load_takeNumber {c : Char} {rest : List Char} (hs : s.rest = c :: rest)
    (hc : c.isDigit = true ∨ c = '.') (h : s.takeNumber = .ok t) : t.load ≤ s.load := by
  obtain ⟨k, rest', hscan, rfl⟩ := takeNumber_eq_ok h
  rw [hs] at hscan
  have hk : k.weight = 1 := by rcases kind_scanNumber hscan with ⟨n, rfl⟩ | ⟨x, rfl⟩ <;> rfl
  obtain ⟨used, rfl, -⟩ := exists_used_of_scanNumber hc hscan
  refine load_push s hk ?_
  rw [hs, List.length_cons, List.length_append]
  omega

theorem load_takeSymbol {c d : Char} {rest : List Char} (hs : s.rest = d :: rest)
    (h : s.takeSymbol c = .ok t) : t.load ≤ s.load := by
  obtain ⟨symbol, -, rfl⟩ := takeSymbol_eq_ok h
  have hpos : 0 < symbol.chars.length := by cases symbol <;> decide
  refine load_push { s with depth := _ } rfl ?_
  rw [List.length_drop, hs, List.length_cons]
  omega

theorem weight_endLine (s : Scan) : weight s.endLine.found = weight s.found := by
  rw [endLine]
  split
  · split_ifs
    · rfl
    · exact Nat.zero_add _
  · rfl

theorem load_of_lineStep (h : s.LineStep t) : t.load ≤ s.load := by
  have hskip {rest : List Char} (hrest : rest <:+ s.rest) {line : Nat} :
      ({ s with rest := rest, line := line } : Scan).load ≤ s.load :=
    Nat.add_le_add_left hrest.length_le _
  cases h with
  | blank hs | innerLineEnd hs => exact hskip (hs ▸ List.suffix_cons _ _)
  | comment hs => exact hskip (hs ▸ (List.dropWhile_suffix _).trans (List.suffix_cons _ _))
  | lineEnd hs =>
    rw [load, load, hs]
    dsimp only
    rw [weight_endLine]
    exact Nat.add_le_add_left (Nat.le_succ _) _
  | brokenLine _ hs => exact hskip (hs ▸ List.suffix_append _ _)
  | text _ hs h =>
    have htext := load_takeText h
    rwa [← hs] at htext
  | number hs hc h => exact load_takeNumber hs hc h
  | name hs hc h => exact load_takeName hs hc h
  | symbol hs h => exact load_takeSymbol hs h

/-- The blanks in front of a line. -/
theorem exists_blanks_of_measureIndent (column : Nat) (cs : List Char) :
    ∃ blanks, cs = blanks ++ (measureIndent column cs).2 ∧
      ∀ c ∈ blanks, c ∈ [' ', '\t', '\x0c'] := by
  fun_induction measureIndent column cs with
  | case1 _ _ ih | case2 _ _ ih | case3 _ _ ih =>
    obtain ⟨blanks, hblanks, hmem⟩ := ih
    exact ⟨_ :: blanks, congrArg _ hblanks, List.forall_mem_cons.mpr ⟨by decide, hmem⟩⟩
  | case4 => exact ⟨[], rfl, by simp⟩

theorem weight_closeBlocks (column line : Nat) (indents : List Nat) (found : List Token) :
    weight (closeBlocks column line indents found).2 = weight found := by
  fun_induction closeBlocks column line indents found with
  | case1 | case3 => rfl
  | case2 _ _ _ _ ih => rw [ih, weight_cons, TokenKind.weight, Nat.zero_add]

theorem load_indentTo {column : Nat} (h : s.indentTo column = .ok t) : t.load = s.load := by
  rw [indentTo] at h
  dsimp only at h
  split_ifs at h with hdeeper hfound hshallower
  · cases h
    rw [load, load, push, weight_cons, TokenKind.weight, Nat.zero_add]
  · cases h
    rw [load, load, weight_closeBlocks]
  · cases h
    rfl

/-- A step never adds to the load. -/
theorem load_of_step (h : s.step = .ok (some t)) : t.load ≤ s.load := by
  obtain ⟨blanks, hblanks, -⟩ := exists_blanks_of_measureIndent 0 s.rest
  have hindent := List.IsSuffix.length_le ⟨blanks, hblanks.symm⟩
  have hskip {rest : List Char} (hle : rest.length ≤ s.rest.length) {line : Nat} :
      ({ s with rest := rest, line := line } : Scan).load ≤ s.load := Nat.add_le_add_left hle _
  cases stepsTo_of_step h with
  | inLine _ h => exact load_of_lineStep h
  | @comment _ rest hs =>
    rw [hs, List.length_cons] at hindent
    have hcomment := (List.dropWhile_suffix (l := rest) fun c => decide (c ≠ '\n')).length_le
    exact hskip (by rw [dropComment]; omega)
  | carriageReturn hs | blankLine hs =>
    rw [hs, List.length_cons] at hindent
    exact hskip (by omega)
  | lineStart _ hs hu h =>
    rw [hs] at hindent
    have hload := load_of_lineStep h
    rw [load_indentTo hu] at hload
    exact Nat.le_trans hload (hskip hindent)

theorem weight_finish (s : Scan) : weight s.finish = weight s.found := by
  rw [finish, weight_reverse, weight_cons, weight_append, weight_replicate rfl, weight_endLine,
    Nat.zero_add]
  exact Nat.zero_add _

theorem weight_run {steps : Nat} {ts : List Token} (h : s.run steps = .ok ts) :
    weight ts ≤ s.load := by
  have hfinish (s : Scan) : weight s.finish ≤ s.load :=
    Nat.le_trans (Nat.le_of_eq s.weight_finish) (Nat.le_add_right _ _)
  induction steps generalizing s with
  | zero =>
    cases h
    exact hfinish s
  | succ steps ih =>
    rw [run] at h
    split at h
    · cases h
    · cases h
      exact hfinish s
    · next next hnext => exact Nat.le_trans (ih h) (load_of_step hnext)

end Scan

/-- The tokens of a source text weigh no more than it has characters. -/
theorem weight_tokenize {source : String} {ts : List Token} (h : tokenize source = .ok ts) :
    weight ts ≤ source.length := by
  have hrun := Scan.weight_run h
  rwa [Scan.load, Scan.start, weight_nil, Nat.zero_add, String.length_toList] at hrun

end NoteShell.Grammar
