import NoteShell.Proofs.Parsing.Reads

/-!
# What parsers leave

A parser that succeeds leaves a suffix of its tokens. The parsers of expressions take at least one
token, and the first one that they take begins an expression of their rank. Unlike the statements
about trees that are written and read back, this holds on all tokens.

## Main definitions

* `Parser.Leaves` : on success a suffix of the tokens is left.
* `Parser.Takes` : on success tokens have been taken, the first of them of a given form.

## Main results

* `Rank.takes_of_rank` : the parser of each rank takes tokens.
* `takes_expression` : the parser of a whole expression takes tokens.
-/

namespace NoteShell.Grammar

open NoteShell.Grammar.Parser NoteShell.Grammar.Rank

variable {α β : Type}

namespace Parser

/-- A parser that succeeds after another one has succeeded before it. -/
theorem bind_eq_ok {p : Parser α} {f : α → Parser β} {ts rest : List Token} {b : β}
    (h : (p >>= f) ts = .ok (b, rest)) :
    ∃ a mid, p ts = .ok (a, mid) ∧ f a mid = .ok (b, rest) := by
  cases hp : p ts with
  | error e =>
    rw [bind_of_error hp] at h
    cases h
  | ok result =>
    obtain ⟨a, mid⟩ := result
    rw [bind_of_ok hp] at h
    exact ⟨a, mid, rfl, h⟩

/-- On success a suffix of the tokens is left. -/
def Leaves (p : Parser α) : Prop := ∀ ⦃ts a rest⦄, p ts = .ok (a, rest) → rest <:+ ts

/-- On success tokens have been taken, and the first of them is of the given form. -/
def Takes (first : TokenKind → Bool) (p : Parser α) : Prop :=
  ∀ ⦃ts a rest⦄, p ts = .ok (a, rest) → ∃ t tail, ts = t :: tail ∧ first t.kind = true ∧ rest <:+ tail

variable {p : Parser α} {f : α → Parser β} {first first' : TokenKind → Bool}

theorem Takes.leaves (h : Takes first p) : Leaves p := by
  intro ts a rest hok
  obtain ⟨t, tail, rfl, -, hrest⟩ := h hok
  exact hrest.trans (List.suffix_cons t tail)

theorem Takes.mono (h : Takes first p) (hle : ∀ t, first t = true → first' t = true) :
    Takes first' p := by
  intro ts a rest hok
  obtain ⟨t, tail, rfl, ht, hrest⟩ := h hok
  exact ⟨t, tail, rfl, hle _ ht, hrest⟩

theorem Leaves.bind (hp : Leaves p) (hf : ∀ a, Leaves (f a)) : Leaves (p >>= f) := by
  intro ts b rest hok
  obtain ⟨a, mid, ha, hb⟩ := bind_eq_ok hok
  exact (hf a hb).trans (hp ha)

theorem Takes.bind (hp : Takes first p) (hf : ∀ a, Leaves (f a)) : Takes first (p >>= f) := by
  intro ts b rest hok
  obtain ⟨a, mid, ha, hb⟩ := bind_eq_ok hok
  obtain ⟨t, tail, rfl, ht, hmid⟩ := hp ha
  exact ⟨t, tail, rfl, ht, (hf a hb).trans hmid⟩

theorem leaves_pure (a : α) : Leaves (pure a) := by
  intro ts b rest hok
  cases hok
  exact List.suffix_refl _

theorem leaves_map {g : α → β} (hp : Leaves p) : Leaves (g <$> p) :=
  hp.bind fun _ => leaves_pure _

theorem leaves_fail (fault : Fault) : Leaves (fail fault : Parser α) := nofun

theorem leaves_failUnexpected : Leaves (failUnexpected : Parser α) := nofun

theorem leaves_ite {c : Prop} [Decidable c] {p q : Parser α} (hp : Leaves p) (hq : Leaves q) :
    Leaves (if c then p else q) := by
  split_ifs
  · exact hp
  · exact hq

/-- A check that may fail, before the rest of a parser. -/
theorem leaves_unless {c : Prop} [Decidable c] {fault : Fault} {f : Unit → Parser β}
    (hf : ∀ u, Leaves (f u)) : Leaves (if c then fail fault >>= f else f ()) :=
  leaves_ite ((leaves_fail fault).bind hf) (hf ())

theorem leaves_peek : Leaves peek := by
  intro ts a rest hok
  cases hok
  exact List.suffix_refl _

theorem leaves_peekSecond : Leaves peekSecond := by
  intro ts a rest hok
  cases hok
  exact List.suffix_refl _

theorem leaves_advance : Leaves advance := by
  intro ts a rest hok
  cases hok
  exact List.drop_suffix 1 ts

theorem leaves_atSymbol (s : Symbol) : Leaves (atSymbol s) := by
  intro ts a rest hok
  cases hok
  exact List.suffix_refl _

theorem leaves_takeSymbol? (s : Symbol) : Leaves (takeSymbol? s) := by
  intro ts a rest hok
  unfold takeSymbol? at hok
  split_ifs at hok <;> cases hok
  · exact List.drop_suffix 1 ts
  · exact List.suffix_refl _

theorem leaves_takeWord? (word : String) : Leaves (takeWord? word) := by
  intro ts a rest hok
  unfold takeWord? at hok
  split_ifs at hok <;> cases hok
  · exact List.drop_suffix 1 ts
  · exact List.suffix_refl _

theorem leaves_expectSymbol (s : Symbol) : Leaves (expectSymbol s) := by
  intro ts a rest hok
  unfold expectSymbol at hok
  split_ifs at hok <;> cases hok
  exact List.drop_suffix 1 ts

theorem leaves_expectWord (word : String) : Leaves (expectWord word) := by
  intro ts a rest hok
  unfold expectWord at hok
  split_ifs at hok <;> cases hok
  exact List.drop_suffix 1 ts

theorem leaves_identifier : Leaves identifier := by
  intro ts a rest hok
  unfold identifier at hok
  split at hok
  · split_ifs at hok
    · cases hok
    · cases hok
      exact List.drop_suffix 1 ts
  · cases hok

theorem leaves_takeComparison? : Leaves takeComparison? := by
  intro ts a rest hok
  unfold takeComparison? at hok
  split at hok <;> cases hok
  · exact List.drop_suffix _ ts
  · exact List.suffix_refl _

theorem dropNewlines_suffix (ts : List Token) : dropNewlines ts <:+ ts := by
  induction ts with
  | nil => exact List.suffix_refl _
  | cons t ts ih =>
    rw [dropNewlines]
    split_ifs
    · exact ih.trans (List.suffix_cons t ts)
    · exact List.suffix_refl _

end Parser

/-! ### Loops -/

theorem leaves_leftChain {operand : Parser Expr} {join? : TokenKind → Option (Expr → Expr → Expr)}
    (h : Leaves operand) (fuel : Nat) (e : Expr) : Leaves (leftChain operand join? fuel e) := by
  induction fuel generalizing e with
  | zero => exact leaves_pure e
  | succ fuel ih =>
    rw [leftChain]
    refine leaves_peek.bind fun t => ?_
    cases join? t with
    | none => exact leaves_pure e
    | some join => exact leaves_advance.bind fun _ => h.bind fun right => ih (join e right)

theorem leaves_itemsUntil {close : Symbol} {item : Parser α} (h : Leaves item) (fuel : Nat)
    (acc : List α) : Leaves (itemsUntil close item fuel acc) := by
  induction fuel generalizing acc with
  | zero => exact leaves_pure _
  | succ fuel ih =>
    rw [itemsUntil]
    refine (leaves_atSymbol _).bind fun _ => leaves_ite (leaves_pure _) (h.bind fun x => ?_)
    exact (leaves_takeSymbol? _).bind fun _ => leaves_ite (ih _) (leaves_pure _)

theorem leaves_comparisonLinks {operand : Parser Expr} (h : Leaves operand) (fuel : Nat)
    (acc : List (Comparison × Expr)) : Leaves (comparisonLinks operand fuel acc) := by
  induction fuel generalizing acc with
  | zero => exact leaves_pure _
  | succ fuel ih =>
    rw [comparisonLinks]
    refine leaves_takeComparison?.bind fun op => ?_
    cases op with
    | none => exact leaves_pure _
    | some op => exact h.bind fun right => ih _

theorem leaves_positional {expression : Parser Expr} (h : Leaves expression) (args : List Expr)
    (keywords : List (String × Expr)) :
    Leaves (callArguments.positional expression args keywords) := by
  rw [callArguments.positional]
  exact leaves_unless fun _ => h.bind fun _ => leaves_pure _

theorem leaves_argument {expression : Parser Expr} (h : Leaves expression) (args : List Expr)
    (keywords : List (String × Expr)) :
    Leaves (callArguments.argument expression args keywords) := by
  rw [callArguments.argument]
  refine leaves_peek.bind fun t => leaves_peekSecond.bind fun _ => ?_
  split
  · refine leaves_ite (leaves_positional h _ _) ?_
    refine leaves_advance.bind fun _ => leaves_advance.bind fun _ => ?_
    exact leaves_unless fun _ => h.bind fun _ => leaves_pure _
  · exact leaves_positional h _ _

theorem leaves_callArguments {expression : Parser Expr} (h : Leaves expression) (fuel : Nat)
    (args : List Expr) (keywords : List (String × Expr)) :
    Leaves (callArguments expression fuel args keywords) := by
  induction fuel generalizing args keywords with
  | zero => exact leaves_pure _
  | succ fuel ih =>
    rw [callArguments]
    refine (leaves_atSymbol _).bind fun _ => leaves_ite (leaves_pure _) ?_
    refine (leaves_argument h args keywords).bind fun result => ?_
    exact (leaves_takeSymbol? _).bind fun _ => leaves_ite (ih _ _) (leaves_pure _)

/-! ### Brackets -/

theorem leaves_parenthesized {expression : Parser Expr} (h : Leaves expression) :
    Leaves (parenthesized expression) := by
  refine h.bind fun inner => (leaves_atSymbol _).bind fun _ => ?_
  exact leaves_unless fun _ => (leaves_expectSymbol _).bind fun _ => leaves_pure _

theorem leaves_listItems (r : Reading) {expression : Parser Expr} (h : Leaves expression) :
    Leaves (listItems r expression) :=
  (leaves_itemsUntil h _ _).bind fun _ => (leaves_expectSymbol _).bind fun _ => leaves_pure _

theorem leaves_dictEntries (r : Reading) {expression : Parser Expr} (h : Leaves expression) :
    Leaves (dictEntries r expression) := by
  have hentry : Leaves (dictEntry expression) :=
    h.bind fun _ => (leaves_expectSymbol _).bind fun _ => h.bind fun _ => leaves_pure _
  exact (leaves_itemsUntil hentry _ _).bind fun _ => (leaves_expectSymbol _).bind fun _ =>
    leaves_pure _

theorem leaves_subscript {expression : Parser Expr} (h : Leaves expression) (target : Expr) :
    Leaves (subscript expression target) := by
  have hbound {f : Option Expr → Parser Expr} (hf : ∀ bound, Leaves (f bound)) (absent : Bool) :
      Leaves (if absent = true then pure Option.none >>= f else some <$> expression >>= f) :=
    leaves_ite ((leaves_pure _).bind hf) ((leaves_map h).bind hf)
  refine (leaves_atSymbol _).bind fun absent => hbound (fun start => ?_) absent
  refine (leaves_takeSymbol? _).bind fun _ => leaves_ite ?_ ?_
  · refine (leaves_atSymbol _).bind fun absent => hbound (fun stop => ?_) absent
    exact (leaves_expectSymbol _).bind fun _ => leaves_pure _
  · refine (leaves_expectSymbol _).bind fun _ => ?_
    cases start with
    | none => exact leaves_failUnexpected
    | some i => exact leaves_pure _

/-! ### Levels -/

/-- The parsers of a level leave a suffix of their tokens. -/
structure Level.Leaves (next : Level) : Prop where
  expression : Takes (begunBy · .conditional) next.expression
  negation : Parser.Leaves next.negation
  signed : Parser.Leaves next.signed
  bracket : ∀ body, (∀ p, Parser.Leaves p → Parser.Leaves (body p)) →
    Parser.Leaves (next.bracket body)

variable {r : Reading} {next : Level} {k : Rank}

theorem leaves_trailers (hnext : next.Leaves) (fuel : Nat) (e : Expr) :
    Leaves (trailers r next fuel e) := by
  have hexpression := hnext.expression.leaves
  induction fuel generalizing e with
  | zero => exact leaves_pure e
  | succ fuel ih =>
    rw [trailers]
    refine leaves_peek.bind fun t => ?_
    split
    · refine leaves_advance.bind fun _ => ?_
      refine (leaves_callArguments hexpression _ _ _).bind fun _ => ?_
      exact (leaves_expectSymbol _).bind fun _ => ih _
    · refine leaves_advance.bind fun _ => ?_
      exact (leaves_subscript hexpression _).bind fun _ => ih _
    · exact leaves_advance.bind fun _ => leaves_identifier.bind fun _ => ih _
    · exact leaves_pure e

/-- Where a token of some kind comes next, it can be taken. -/
theorem eq_cons_of_headKind {ts : List Token} (h : headKind ts ≠ .finish) :
    ∃ t tail, ts = t :: tail ∧ headKind ts = t.kind := by
  cases ts with
  | nil => exact absurd rfl h
  | cons t tail => exact ⟨t, tail, rfl, rfl⟩

theorem adjacentTexts_suffix (ts : List Token) : (adjacentTexts ts).2 <:+ ts := by
  induction ts with
  | nil => exact List.suffix_refl _
  | cons t ts ih =>
    rw [adjacentTexts]
    split
    · exact ih.trans (List.suffix_cons t ts)
    · exact List.suffix_refl _

theorem takes_atom (hnext : next.Leaves) : Takes (begunBy · .atom) (Grammar.atom r next) := by
  intro ts e rest hok
  have hbracket (body : Parser Expr → Parser Expr) (h : ∀ p, Leaves p → Leaves (body p))
      (hbody : next.bracket body (ts.drop 1) = .ok (e, rest)) : rest <:+ ts.drop 1 :=
    hnext.bracket body h hbody
  have hsuffix : begunBy (headKind ts) .atom = true ∧ rest <:+ ts.drop 1 := by
    unfold Grammar.atom at hok
    split at hok
    · next h =>
      cases hok
      exact ⟨by rw [h]; rfl, List.suffix_refl _⟩
    · next h =>
      cases hok
      exact ⟨by rw [h]; rfl, List.suffix_refl _⟩
    · next h =>
      cases hok
      exact ⟨by rw [h]; rfl, adjacentTexts_suffix _⟩
    · next h =>
      split at hok
      · cases hok
        exact ⟨by rw [h]; rfl, List.suffix_refl _⟩
      · cases hok
    · next word h =>
      split at hok
      · next hword =>
        cases hok
        exact ⟨by simp [h, begunBy, opensAtom, hword], List.suffix_refl _⟩
      · cases hok
    · next h => exact ⟨by rw [h]; rfl, hbracket _ (fun p => leaves_parenthesized) hok⟩
    · next h => exact ⟨by rw [h]; rfl, hbracket _ (fun p => leaves_listItems r) hok⟩
    · next h => exact ⟨by rw [h]; rfl, hbracket _ (fun p => leaves_dictEntries r) hok⟩
    · cases hok
  obtain ⟨hbegun, hrest⟩ := hsuffix
  have hne : headKind ts ≠ .finish := by
    intro hfinish
    rw [hfinish] at hbegun
    exact absurd hbegun (by decide)
  obtain ⟨t, tail, rfl, -⟩ := eq_cons_of_headKind hne
  exact ⟨t, tail, rfl, hbegun, hrest⟩

theorem leaves_resume (hnext : next.Leaves) (h : Leaves (k.tighter.parser r next)) (fuel : Nat)
    (e : Expr) : Leaves (k.resume r next fuel e) := by
  unfold resume
  split_ifs
  · exact leaves_trailers hnext fuel e
  · exact leaves_leftChain h fuel e

/-- A rank takes tokens if the next tighter one does. -/
theorem Parser.Takes.looser (hnext : next.Leaves)
    (h : Takes (begunBy · k.tighter) (k.tighter.parser r next)) :
    Takes (begunBy · k) (k.parser r next) := by
  have hmono : Takes (begunBy · k) (k.tighter.parser r next) :=
    h.mono fun t ht => begunBy_mono ht k.tightness_le_tighter
  by_cases hnested : k.isLeftNested = true
  · rw [parser_of_isLeftNested hnested]
    exact hmono.bind fun e => leaves_resume hnext h.leaves _ e
  cases k with
  | disjunction | conjunction | sum | product | postfixed => exact absurd rfl hnested
  | atom => exact h
  | conditional =>
    refine hmono.bind fun body => (leaves_takeWord? _).bind fun _ => leaves_ite ?_ (leaves_pure _)
    refine h.leaves.bind fun test => (leaves_expectWord _).bind fun _ => ?_
    exact hnext.expression.leaves.bind fun _ => leaves_pure _
  | comparison =>
    refine hmono.bind fun first => ?_
    exact (leaves_comparisonLinks h.leaves _ _).bind fun _ => leaves_pure _
  | power =>
    refine hmono.bind fun base => (leaves_takeSymbol? _).bind fun _ => leaves_ite ?_ (leaves_pure _)
    exact hnext.signed.bind fun _ => leaves_pure _
  | negation =>
    intro ts e rest hok
    by_cases hnot : isWord "not" (headKind ts) = true
    · have hne : headKind ts ≠ .finish := by
        intro hfinish
        rw [hfinish] at hnot
        exact absurd hnot (by decide)
      obtain ⟨t, tail, rfl, -⟩ := eq_cons_of_headKind hne
      have htake : takeWord? "not" (t :: tail) = .ok (true, tail) := by
        rw [takeWord?, if_pos hnot]
        rfl
      rw [parser, Grammar.negation, bind_of_ok htake] at hok
      have hleaves : Leaves (next.negation >>= fun operand => pure (Expr.unary .not operand)) :=
        hnext.negation.bind fun _ => leaves_pure _
      exact ⟨t, tail, rfl, by simp [begunBy, show isWord "not" t.kind = true from hnot],
        hleaves hok⟩
    · rw [Bool.not_eq_true] at hnot
      rw [parser, Grammar.negation, bind_of_ok (takeWord?_of_isWord_false hnot)] at hok
      exact hmono hok
  | signed =>
    intro ts e rest hok
    rw [parser, Grammar.signed, bind_of_ok (p := peek) rfl] at hok
    cases hsign : signOf? (headKind ts) with
    | none =>
      rw [hsign] at hok
      exact hmono hok
    | some op =>
      have hne : headKind ts ≠ .finish := by
        intro hfinish
        rw [hfinish] at hsign
        cases hsign
      obtain ⟨t, tail, rfl, -⟩ := eq_cons_of_headKind hne
      rw [hsign] at hok
      have hleaves : Leaves (next.signed >>= fun operand => pure (Expr.unary op operand)) :=
        hnext.signed.bind fun _ => leaves_pure _
      exact ⟨t, tail, rfl, by simp [begunBy, show signOf? t.kind = some op from hsign], hleaves hok⟩

/-- The parser of each rank takes tokens, the first of which begins an expression of the rank. -/
theorem Rank.takes_of_rank (hnext : next.Leaves) (k : Rank) :
    Takes (begunBy · k) (k.parser r next) := by
  have hatom : Takes (begunBy · .atom) (Rank.atom.parser r next) := takes_atom hnext
  have hpostfixed := Takes.looser (k := .postfixed) hnext hatom
  have hpower := Takes.looser (k := .power) hnext hpostfixed
  have hsigned := Takes.looser (k := .signed) hnext hpower
  have hproduct := Takes.looser (k := .product) hnext hsigned
  have hsum := Takes.looser (k := .sum) hnext hproduct
  have hcomparison := Takes.looser (k := .comparison) hnext hsum
  have hnegation := Takes.looser (k := .negation) hnext hcomparison
  have hconjunction := Takes.looser (k := .conjunction) hnext hnegation
  have hdisjunction := Takes.looser (k := .disjunction) hnext hconjunction
  have hconditional := Takes.looser (k := .conditional) hnext hdisjunction
  cases k <;> assumption

theorem Level.leaves_ofBudget (budget : Nat) : (Level.ofBudget r budget).Leaves := by
  induction budget with
  | zero => exact ⟨nofun, nofun, nofun, fun _ _ => nofun⟩
  | succ budget ih =>
    exact
      { expression := takes_of_rank ih .conditional
        negation := (takes_of_rank ih .negation).leaves
        signed := (takes_of_rank ih .signed).leaves
        bracket := fun body hbody => hbody _ ih.expression.leaves }

/-- The parser of a whole expression takes tokens, the first of which begins an expression. -/
theorem takes_expression (r : Reading) : Takes (begunBy · .conditional) (expression r) :=
  (Level.leaves_ofBudget maxNesting).expression

end NoteShell.Grammar
