import NoteShell.Proofs.Parsing.Reads
import NoteShell.Proofs.Parsing.Rendering

/-!
# Trees whose tokens are read back

A tree is readable when its tokens are read as the tree at every place, with any number of levels
left. It is enough that its tokens without parentheses are read at its own rank.

## Main definitions

* `Readable` : the tokens of a tree are read back at every place.

## Main results

* `readable_of_bare` : a tree is readable if its bare tokens are read at its own rank.
* `Readable.expression` : a readable tree as a whole expression on the next level.
-/

namespace NoteShell.Grammar

open NoteShell.Grammar.Parser NoteShell.Grammar.Rank

/-- What the tokens of a list are. -/
def kinds (ts : List Token) : List TokenKind := ts.map (·.kind)

@[simp] theorem kinds_nil : kinds [] = [] := rfl

@[simp] theorem kinds_cons (t : Token) (ts : List Token) :
    kinds (t :: ts) = t.kind :: kinds ts := rfl

@[simp] theorem kinds_append (ts ts' : List Token) : kinds (ts ++ ts') = kinds ts ++ kinds ts' :=
  List.map_append

theorem kinds_eq_append {ts : List Token} {ks ks' : List TokenKind} (h : kinds ts = ks ++ ks') :
    ∃ us us', ts = us ++ us' ∧ kinds us = ks ∧ kinds us' = ks' :=
  List.map_eq_append_iff.mp h

theorem kinds_eq_cons {ts : List Token} {k : TokenKind} {ks : List TokenKind}
    (h : kinds ts = k :: ks) : ∃ t us, ts = t :: us ∧ t.kind = k ∧ kinds us = ks :=
  List.map_eq_cons_iff.mp h

theorem kinds_eq_nil {ts : List Token} (h : kinds ts = []) : ts = [] := List.map_eq_nil_iff.mp h

theorem kinds_eq_concat {ts : List Token} {ks : List TokenKind} {k : TokenKind}
    (h : kinds ts = ks ++ [k]) : ∃ us t, ts = us ++ [t] ∧ kinds us = ks ∧ t.kind = k := by
  obtain ⟨us, vs, rfl, hus, hvs⟩ := kinds_eq_append h
  obtain ⟨t, vs, rfl, ht, hnil⟩ := kinds_eq_cons hvs
  obtain rfl := kinds_eq_nil hnil
  exact ⟨us, t, rfl, hus, ht⟩

theorem Expr.Begins.opens {k : Rank} {ts : List Token} (h : Expr.Begins k (kinds ts)) :
    Opens k ts := by
  obtain ⟨t, more, heq, ht, -⟩ := h
  obtain ⟨u, us, rfl, rfl, -⟩ := kinds_eq_cons heq
  exact ⟨u, us, rfl, ht⟩

/-- A tree is read at rank `k`, and as part of the loop of the rank where it has one. -/
def ReadAt (r : Reading) (next : Level) (k : Rank) (e : Expr) (ts : List Token)
    (fits : Prop) : Prop :=
  Reads r next k e ts fits ∧ (k.isLeftNested = true → Grows r next k e ts fits)

/-- The tokens of a tree at every place are read back. -/
def Readable (r : Reading) (e : Expr) : Prop :=
  ∀ (k : Rank) (ts : List Token), kinds ts = e.tokensAt k → ts.length ≤ r.bound → ∀ n,
    ReadAt r (Level.ofBudget r n) k e ts (e.scopesAt k ≤ n)

variable {r : Reading} {next : Level} {j k : Rank} {e : Expr} {ts : List Token} {fits : Prop}

theorem ReadAt.of_reads (h : Reads r next k e ts fits) (hk : k.isLeftNested = false) :
    ReadAt r next k e ts fits :=
  ⟨h, fun hk' => absurd (hk'.symm.trans hk) (by decide)⟩

theorem ReadAt.of_grows (hk : k.isLeftNested = true) (h : Grows r next k e ts fits) :
    ReadAt r next k e ts fits :=
  ⟨h.reads hk, fun _ => h⟩

theorem ReadAt.descend (hopens : Opens j ts) (h : ReadAt r next j e ts fits)
    (hle : k.tightness ≤ j.tightness) : ReadAt r next k e ts fits := by
  rcases Nat.eq_or_lt_of_le hle with heq | hlt
  · exact tightness_injective heq ▸ h
  refine ⟨h.1.descend hopens hle, fun hk => ?_⟩
  have hne : k ≠ .atom := by
    rintro rfl
    exact absurd hk (by decide)
  exact (h.1.descend hopens (by rw [tightness_tighter hne]; omega)).grows hk

/-! ### The places of a tree -/

theorem not_needsParens_conditional (e : Expr) : ¬ Expr.needsParens .conditional e :=
  Nat.not_lt_zero _

@[simp] theorem tokensAt_conditional (e : Expr) : e.tokensAt .conditional = e.tokens := by
  rw [Expr.tokensAt, Expr.enclose, if_neg (not_needsParens_conditional e)]

@[simp] theorem scopesAt_conditional (e : Expr) : e.scopesAt .conditional = e.scopes := by
  rw [Expr.scopesAt, Expr.encloseScopes, if_neg (not_needsParens_conditional e)]

/-- Parentheses make a tree readable at every place, if its bare tokens are read at its own rank. -/
theorem readable_of_bare (he : e.Plain)
    (h : ∀ ts : List Token, kinds ts = e.tokens → ts.length ≤ r.bound → ∀ n,
      ReadAt r (Level.ofBudget r n) e.rank e ts (e.scopes ≤ n)) : Readable r e := by
  intro k ts hts hlen n
  by_cases hp : Expr.needsParens k e
  · simp only [Expr.tokensAt, Expr.enclose, if_pos hp] at hts
    simp only [Expr.scopesAt, Expr.encloseScopes, if_pos hp]
    obtain ⟨o, us, rfl, ho, hus⟩ := kinds_eq_cons hts
    obtain ⟨inner, c, rfl, hinner, hc⟩ := kinds_eq_concat hus
    have hbegins : Expr.Begins e.rank (kinds inner) := hinner ▸ he.begins
    have hread (n : Nat) : Reads r (Level.ofBudget r n) .conditional e inner (e.scopes ≤ n) :=
      (h inner hinner (by simp at hlen; omega) n).1.descend hbegins.opens (Nat.zero_le _)
    have hatom := ReadAt.of_reads (Reads.enclosed hread ho hc n) rfl
    refine hatom.descend ⟨o, inner ++ [c], rfl, ?_⟩ (tightness_le_atom k)
    rw [ho]
    decide
  · simp only [Expr.tokensAt, Expr.enclose, if_neg hp] at hts
    simp only [Expr.scopesAt, Expr.encloseScopes, if_neg hp]
    have hbegins : Expr.Begins e.rank (kinds ts) := hts ▸ he.begins
    exact (h ts hts hlen n).descend hbegins.opens (Nat.le_of_not_lt hp)

/-- A readable tree is read as a whole expression on the next level. -/
theorem Readable.expression (h : Readable r e) (hts : kinds ts = e.tokens)
    (hlen : ts.length ≤ r.bound) {rest : List Token} (hrest : Stops .conditional rest) (n : Nat) :
    Leads (Level.ofBudget r n).expression (pure e) (e.scopes + 1 ≤ n) (ts ++ rest) rest := by
  refine Leads.expression (fun n => ?_) n
  have hread := (h .conditional ts ((tokensAt_conditional e).symm ▸ hts) hlen n).1 rest hrest
  rwa [scopesAt_conditional] at hread

end NoteShell.Grammar
