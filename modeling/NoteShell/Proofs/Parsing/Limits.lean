import NoteShell.Proofs.Lexing.Weight
import NoteShell.Proofs.Parsing.Fields
import NoteShell.Proofs.Parsing.Sources
import NoteShell.Proofs.Parsing.Statements

/-!
# What is written down is not longer than the source text

A text in a source text has no more characters than the source text, and a list that is written down
has no more items, since each of them takes a token.

## Main definitions

* `Expr.Fits` : the text or the list that an expression is has at most so many items.

## Main results

* `fits_of_parse` : all texts and lists of a source text.
-/

namespace NoteShell.Grammar

open NoteShell.Grammar.Parser

/-- The text or the list that an expression writes down has at most `most` characters or items. -/
def Expr.Fits (most : Nat) : Expr → Prop
  | .str s => s.length ≤ most
  | .list items => items.length ≤ most
  | _ => True

variable {most : Nat} {e : Expr} {source : String}

theorem Expr.Fits.mono {n : Nat} (h : e.Fits n) (hn : n ≤ most) : e.Fits most := by
  cases e with
  | str s => exact Nat.le_trans h hn
  | list items => exact Nat.le_trans h hn
  | _ => trivial

/-- The lists of a tree that is built up are limited, and its texts are leaves. -/
theorem Derived.fits {leaf : Expr → Prop} {n : Nat} {place : Place}
    (hleaf : ∀ e, leaf e → e.Fits most)
    (h : Derived leaf most n place e) : e.Fits most := by
  induction h with
  | leaf he => exact hleaf _ he
  | looser _ ih | enter _ ih | enclosed _ ih => exact ih
  | list _ hlength => exact hlength
  | _ => trivial

/-- The expressions of a source text, where those of the fields in it are limited. -/
theorem yields_fits (most : Nat) {read : String → Except SourceError Expr}
    (hread : ∀ source e, source.length ≤ most → read source = .ok e → e.Holds (Expr.Fits most))
    (bound : Nat) :
    Yields most (Expr.Holds (Expr.Fits most)) (expression ⟨readFormatted read, bound⟩) := by
  have hleaves : Reading.LeavesHold ⟨readFormatted read, bound⟩
      (fun e => e.Fits most ∧ ∀ c ∈ e.children, c.Holds (Expr.Fits most)) most := by
    have hplain {e : Expr} (he : e.Fits most) (hchildren : e.children = []) :
        e.Fits most ∧ ∀ c ∈ e.children, c.Holds (Expr.Fits most) :=
      ⟨he, by simp [hchildren]⟩
    refine ⟨fun _ => hplain trivial rfl, fun _ => hplain trivial rfl, fun _ hs => hplain hs rfl, ?_,
      ?_⟩
    · intro word e hword
      rw [wordExpr?] at hword
      split_ifs at hword <;> cases hword <;> exact hplain trivial rfl
    · intro body line e hbody he
      obtain ⟨⟨pieces, rfl⟩, hchildren⟩ := children_of_readFormatted hread hbody he
      exact ⟨trivial, hchildren⟩
  refine (derived_expression hleaves).mono fun e he => ?_
  exact he.forall_contains (Nat.le_refl _) (fun m place g _ hg => hg.fits fun e he => he.1)
    fun e he => he.2

theorem fits_of_readSource {depth : Nat} (hsource : source.length ≤ most)
    (h : readSource depth source = .ok e) : e.Holds (Expr.Fits most) := by
  induction depth generalizing source e with
  | zero => cases h
  | succ depth ih =>
    obtain ⟨tokens, rest, htokens, hok⟩ := exists_tokens_of_readSource h
    have hexpr := yields_fits most (fun source e hsource h => ih hsource h) tokens.length
    exact (yields_singleExpression hexpr (Nat.le_trans (weight_tokenize htokens) hsource) hok).1

/-- No text and no list in a source text has more characters or items than the source text itself,
the fields of formatted texts included. -/
theorem fits_of_parse (source : String) :
    (∀ e, parseExpression source = .ok e → e.Holds (Expr.Fits source.length)) ∧
      ∀ stmts, parseProgram source = .ok stmts →
        ∀ s ∈ stmts, s.Holds (Expr.Fits source.length) := by
  refine ⟨fun e h => fits_of_readSource (Nat.le_refl _) h, fun stmts h => ?_⟩
  obtain ⟨tokens, rest, htokens, hok⟩ := exists_tokens_of_parseProgram h
  have hread (text : String) (e : Expr) (htext : text.length ≤ source.length)
      (he : readSource source.length text = .ok e) := fits_of_readSource htext he
  have hexpr := yields_fits source.length hread tokens.length
  exact (yields_program hexpr (weight_tokenize htokens) hok).1

end NoteShell.Grammar
