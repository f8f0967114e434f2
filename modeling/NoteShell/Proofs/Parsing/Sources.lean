import NoteShell.Proofs.Parsing.FastPath

/-!
# Parsing source texts

A source text is cut into tokens, and the tokens are parsed. What is shown about tokens is carried
over to source texts by the lemmas below.

## Main results

* `parseExpression_of_tokens`, `parseProgram_of_tokens` : a source text with known tokens.
* `parseProgram_of_parseExpression`, `parseExpression_of_parseProgram` : programs of one expression.
-/

namespace NoteShell.Grammar

variable {source : String} {e : Expr}

theorem run'_eq_ok_iff {α : Type} {p : Parser α} {ts : List Token} {a : α} :
    p.run' ts = .ok a ↔ ∃ rest, p ts = .ok (a, rest) := by
  change Except.map Prod.fst (p ts) = .ok a ↔ _
  cases p ts with
  | error e => simp [Except.map]
  | ok result => simp [Except.map, Prod.ext_iff]

theorem parseExpression_of_tokens {tokens : List Token} (h : tokenize source = .ok tokens) :
    parseExpression source =
      (singleExpression ⟨readFormatted (readSource source.length), tokens.length⟩).run' tokens := by
  rw [parseExpression, readSource, h]
  rfl

theorem parseProgram_of_tokens {tokens : List Token} (h : tokenize source = .ok tokens) :
    parseProgram source =
      (program ⟨readFormatted (readSource source.length), tokens.length⟩).run' tokens := by
  rw [parseProgram, h]
  rfl

/-- A source that is read has tokens, which are parsed as a single expression. -/
theorem exists_tokens_of_readSource {depth : Nat}
    (h : readSource (depth + 1) source = .ok e) :
    ∃ tokens rest, tokenize source = .ok tokens ∧
      singleExpression ⟨readFormatted (readSource depth), tokens.length⟩ tokens =
        .ok (e, rest) := by
  cases htokens : tokenize source with
  | error fault =>
    rw [readSource, htokens] at h
    cases h
  | ok tokens =>
    rw [readSource, htokens] at h
    obtain ⟨rest, hrest⟩ := run'_eq_ok_iff.mp h
    exact ⟨tokens, rest, rfl, hrest⟩

theorem exists_tokens_of_parseProgram {stmts : List Stmt} (h : parseProgram source = .ok stmts) :
    ∃ tokens rest, tokenize source = .ok tokens ∧
      program ⟨readFormatted (readSource source.length), tokens.length⟩ tokens =
        .ok (stmts, rest) := by
  cases htokens : tokenize source with
  | error fault =>
    rw [parseProgram, htokens] at h
    cases h
  | ok tokens =>
    rw [parseProgram_of_tokens htokens, run'_eq_ok_iff] at h
    obtain ⟨rest, hrest⟩ := h
    exact ⟨tokens, rest, rfl, hrest⟩

/-! ### Programs of one expression -/

theorem parseProgram_of_parseExpression (h : parseExpression source = .ok e) :
    parseProgram source = .ok [.expr e] := by
  cases htokens : tokenize source with
  | error fault =>
    rw [parseExpression, readSource, htokens] at h
    cases h
  | ok tokens =>
    rw [parseExpression_of_tokens htokens, run'_eq_ok_iff] at h
    obtain ⟨rest, hrest⟩ := h
    rw [parseProgram_of_tokens htokens, run'_eq_ok_iff]
    exact ⟨rest, program_of_singleExpression rfl hrest⟩

theorem parseExpression_of_parseProgram {tokens : List Token}
    (htokens : tokenize source = .ok tokens)
    (hsemicolon : ∀ t ∈ tokens, t.kind ≠ .symbol .semicolon)
    (h : parseProgram source = .ok [.expr e]) : parseExpression source = .ok e := by
  rw [parseProgram_of_tokens htokens, run'_eq_ok_iff] at h
  obtain ⟨rest, hrest⟩ := h
  rw [parseExpression_of_tokens htokens, run'_eq_ok_iff]
  exact singleExpression_of_program rfl hsemicolon hrest

end NoteShell.Grammar
