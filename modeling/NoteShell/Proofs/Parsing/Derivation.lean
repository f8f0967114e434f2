import NoteShell.Proofs.Parsing.Remainder
import NoteShell.Proofs.Parsing.Rendering

/-!
# Trees that parsers give

Whatever the tokens are, a tree that the parser of expressions gives is built up by the rules of the
grammar, each of which uses a nesting level or hands on to a tighter rank. What holds of all trees
that are built up in this way therefore holds of all trees that are parsed.

The tokens are weighed, a token that is written with at least one character counting one and a text
as many as it has characters besides. Their weight limits the texts and the lists that are read.

## Main definitions

* `Derived` : the trees that can be built up with a number of levels left.
* `Parser.Yields` : what a parser gives on tokens of limited weight.

## Main results

* `derived_expression` : the trees that the parser of a whole expression gives.
-/

namespace NoteShell.Grammar

open NoteShell.Grammar.Parser NoteShell.Grammar.Rank

/-! ### The weight of tokens -/

/-- The weight of a token, which is no more than the characters that it is written with. -/
def TokenKind.weight : TokenKind → Nat
  | .str s | .formatted s => s.length + 1
  | .newline | .indent | .dedent | .finish => 0
  | _ => 1

/-- The weight of tokens together. -/
def weight : List Token → Nat
  | [] => 0
  | t :: ts => t.kind.weight + weight ts

@[simp] theorem weight_nil : weight [] = 0 := rfl

@[simp] theorem weight_cons (t : Token) (ts : List Token) :
    weight (t :: ts) = t.kind.weight + weight ts := rfl

theorem weight_le_of_suffix {ts us : List Token} (h : us <:+ ts) : weight us ≤ weight ts := by
  obtain ⟨front, rfl⟩ := h
  induction front with
  | nil => exact Nat.le_refl _
  | cons t front ih =>
    rw [List.cons_append, weight_cons]
    omega

/-- A token that begins an expression has a weight. -/
theorem weight_pos_of_begunBy {t : TokenKind} {k : Rank} (h : begunBy t k = true) :
    0 < t.weight := by
  cases t with
  | newline | indent | dedent | finish => cases k <;> exact absurd h (by decide)
  | _ => simp [TokenKind.weight]

/-- The weight of tokens that begin with a token of the given kind. -/
theorem weight_of_headKind {ts : List Token} {t : TokenKind} (ht : headKind ts = t)
    (hne : t ≠ .finish) : weight ts = t.weight + weight (ts.drop 1) := by
  obtain ⟨t', tail, rfl, ht'⟩ := eq_cons_of_headKind (ht ▸ hne : headKind ts ≠ .finish)
  rw [weight_cons, ← ht', ht]
  rfl

/-- The texts that are put together weigh no more than their tokens. -/
theorem length_adjacentTexts_le (ts : List Token) : (adjacentTexts ts).1.length ≤ weight ts := by
  induction ts with
  | nil => exact Nat.le_refl _
  | cons t ts ih =>
    rw [adjacentTexts]
    split
    next s hs =>
      simp only [String.length_append, weight_cons, hs, TokenKind.weight]
      omega
    · exact Nat.zero_le _

/-! ### Trees -/

/-- Where a tree stands: at a rank of the present nesting level, or of the next one. -/
inductive Place where
  | here (k : Rank)
  | next (k : Rank)

/-- The trees that can be built up with `n` nesting levels left, from literals and names for which
`leaf` holds, with lists of at most `most` items. -/
inductive Derived (leaf : Expr → Prop) (most : Nat) : Nat → Place → Expr → Prop
  | leaf {n e} (he : leaf e) : Derived leaf most n (.here .atom) e
  | looser {n k e} (h : Derived leaf most n (.here k.tighter) e) : Derived leaf most n (.here k) e
  | enter {n k e} (h : Derived leaf most n (.here k) e) : Derived leaf most (n + 1) (.next k) e
  | enclosed {n e} (h : Derived leaf most n (.next .conditional) e) :
      Derived leaf most (n + 1) (.here .atom) e
  | list {n items} (h : ∀ e ∈ items, Derived leaf most n (.next .conditional) e)
      (hlength : items.length ≤ most) : Derived leaf most (n + 1) (.here .atom) (.list items)
  | dict {n entries} (hkeys : ∀ p ∈ entries, Derived leaf most n (.next .conditional) p.1)
      (hvalues : ∀ p ∈ entries, Derived leaf most n (.next .conditional) p.2) :
      Derived leaf most (n + 1) (.here .atom) (.dict entries)
  | member {n target} (name : String) (h : Derived leaf most n (.here .postfixed) target) :
      Derived leaf most n (.here .postfixed) (.member target name)
  | index {n target i} (h : Derived leaf most n (.here .postfixed) target)
      (hi : Derived leaf most n (.next .conditional) i) :
      Derived leaf most n (.here .postfixed) (.index target i)
  | slice {n target start stop} (h : Derived leaf most n (.here .postfixed) target)
      (hstart : ∀ e ∈ start, Derived leaf most n (.next .conditional) e)
      (hstop : ∀ e ∈ stop, Derived leaf most n (.next .conditional) e) :
      Derived leaf most n (.here .postfixed) (.slice target start stop)
  | call {n callee args keywords} (h : Derived leaf most n (.here .postfixed) callee)
      (hargs : ∀ e ∈ args, Derived leaf most n (.next .conditional) e)
      (hvalues : ∀ p ∈ keywords, Derived leaf most n (.next .conditional) p.2) :
      Derived leaf most n (.here .postfixed) (.call callee args keywords)
  | unary {n operand} (op : UnaryOp) (h : Derived leaf most n (.next op.rank) operand) :
      Derived leaf most n (.here op.rank) (.unary op operand)
  | power {n base exponent} (hbase : Derived leaf most n (.here .postfixed) base)
      (hexponent : Derived leaf most n (.next .signed) exponent) :
      Derived leaf most n (.here .power) (.binary .pow base exponent)
  | binary {n left right} (op : BinaryOp) (hop : op.rank.isLeftNested = true)
      (hleft : Derived leaf most n (.here op.rank) left)
      (hright : Derived leaf most n (.here op.rank.tighter) right) :
      Derived leaf most n (.here op.rank) (.binary op left right)
  | logic {n left right} (op : LogicOp) (hleft : Derived leaf most n (.here op.rank) left)
      (hright : Derived leaf most n (.here op.rank.tighter) right) :
      Derived leaf most n (.here op.rank) (.logic op left right)
  | compare {n first links} (hfirst : Derived leaf most n (.here .sum) first)
      (hlinks : ∀ p ∈ links, Derived leaf most n (.here .sum) p.2) :
      Derived leaf most n (.here .comparison) (.compare first links)
  | conditional {n test body otherwise} (htest : Derived leaf most n (.here .disjunction) test)
      (hbody : Derived leaf most n (.here .disjunction) body)
      (hotherwise : Derived leaf most n (.next .conditional) otherwise) :
      Derived leaf most n (.here .conditional) (.conditional test body otherwise)

/-! ### What parsers give -/

variable {α β : Type}

namespace Parser

/-- On tokens of weight at most `most` a parser gives what satisfies `P`, and leaves no more
weight. -/
def Yields (most : Nat) (P : α → Prop) (p : Parser α) : Prop :=
  ∀ ⦃ts a rest⦄, weight ts ≤ most → p ts = .ok (a, rest) → P a ∧ weight rest ≤ most

variable {most : Nat} {P : α → Prop} {Q : β → Prop} {p : Parser α} {f : α → Parser β}

theorem Yields.mono (h : Yields most P p) {P' : α → Prop} (hP : ∀ a, P a → P' a) :
    Yields most P' p :=
  fun _ _ _ hts hok => (h hts hok).imp_left (hP _)

/-- A parser, and then one that depends on what it gives. -/
theorem Yields.bind (hp : Yields most P p) (hf : ∀ a, P a → Yields most Q (f a)) :
    Yields most Q (p >>= f) := by
  intro ts b rest hts hok
  obtain ⟨a, mid, ha, hb⟩ := bind_eq_ok hok
  obtain ⟨hP, hmid⟩ := hp hts ha
  exact hf a hP hmid hb

/-- A parser of which nothing is needed but the tokens that it leaves. -/
theorem Leaves.then_yields (hleaves : Leaves p) (hf : ∀ a, Yields most Q (f a)) :
    Yields most Q (p >>= f) :=
  Yields.bind (P := fun _ => True)
    (fun _ _ _ hts hok => ⟨trivial, Nat.le_trans (weight_le_of_suffix (hleaves hok)) hts⟩)
    fun a _ => hf a

theorem yields_pure {a : α} (h : P a) : Yields most P (pure a) := by
  intro ts b rest hts hok
  cases hok
  exact ⟨h, hts⟩

theorem yields_fail (fault : Fault) : Yields most P (fail fault : Parser α) := nofun

theorem yields_failUnexpected : Yields most P (failUnexpected : Parser α) := nofun

theorem yields_ite {c : Prop} [Decidable c] {p q : Parser α} (hp : Yields most P p)
    (hq : Yields most P q) : Yields most P (if c then p else q) := by
  split_ifs
  · exact hp
  · exact hq

/-- A check that may fail, before the rest of a parser. -/
theorem yields_unless {c : Prop} [Decidable c] {fault : Fault} {f : Unit → Parser β}
    (hf : ¬ c → Yields most Q (f ())) : Yields most Q (if c then fail fault >>= f else f ()) := by
  split_ifs with h
  · exact (yields_fail (P := fun _ => False) fault).bind fun _ => False.elim
  · exact hf h

end Parser

variable {leaf : Expr → Prop} {most n : Nat} {r : Reading} {next : Level} {k : Rank}

/-! ### Loops -/

theorem yields_leftChain {P : Expr → Prop} {operand : Parser Expr}
    {join? : TokenKind → Option (Expr → Expr → Expr)} {Q : Expr → Prop} (h : Yields most Q operand)
    (hjoin : ∀ t join, join? t = some join → ∀ left right, P left → Q right → P (join left right))
    (fuel : Nat) {e : Expr} (he : P e) : Yields most P (leftChain operand join? fuel e) := by
  induction fuel generalizing e with
  | zero => exact yields_pure he
  | succ fuel ih =>
    rw [leftChain]
    refine leaves_peek.then_yields fun t => ?_
    cases ht : join? t with
    | none => exact yields_pure he
    | some join =>
      refine leaves_advance.then_yields fun _ => h.bind fun right hright => ?_
      exact ih (hjoin t join ht e right he hright)

/-- There are no more items than the tokens weigh, since each of them takes a token. -/
theorem itemsUntil_eq_ok {P : α → Prop} {close : Symbol} {item : Parser α}
    {first : TokenKind → Bool}
    (hfirst : ∀ t, first t = true → 0 < t.weight) (htakes : Takes first item)
    (h : Yields most P item) (fuel : Nat) {acc items : List α} {ts rest : List Token}
    (hacc : ∀ x ∈ acc, P x) (hts : weight ts ≤ most)
    (hok : itemsUntil close item fuel acc ts = .ok (items, rest)) :
    (∀ x ∈ items, P x) ∧ items.length ≤ acc.length + weight ts := by
  induction fuel generalizing acc ts with
  | zero =>
    cases hok
    exact ⟨by simpa using hacc, by simp⟩
  | succ fuel ih =>
    rw [itemsUntil, bind_of_ok (p := atSymbol close) rfl] at hok
    split_ifs at hok
    · cases hok
      exact ⟨by simpa using hacc, by simp⟩
    · obtain ⟨x, mid, hx, hmid⟩ := bind_eq_ok hok
      obtain ⟨comma, after, hcomma, hafter⟩ := bind_eq_ok hmid
      have hP : ∀ y ∈ x :: acc, P y := List.forall_mem_cons.mpr ⟨(h hts hx).1, hacc⟩
      obtain ⟨t, tail, rfl, ht, hsuffix⟩ := htakes hx
      have hpos := hfirst _ ht
      have hmid_le := weight_le_of_suffix hsuffix
      have hafter_le := weight_le_of_suffix (leaves_takeSymbol? _ hcomma)
      rw [weight_cons] at hts ⊢
      split_ifs at hafter
      · obtain ⟨hitems, hlength⟩ := ih hP (by omega) hafter
        exact ⟨hitems, by rw [List.length_cons] at hlength; omega⟩
      · cases hafter
        refine ⟨fun y hy => hP y (List.mem_reverse.mp hy), ?_⟩
        rw [List.length_reverse, List.length_cons]
        omega

theorem yields_itemsUntil {P : α → Prop} {close : Symbol} {item : Parser α}
    {first : TokenKind → Bool} (hfirst : ∀ t, first t = true → 0 < t.weight)
    (htakes : Takes first item) (h : Yields most P item) (fuel : Nat) :
    Yields most (fun items => (∀ x ∈ items, P x) ∧ items.length ≤ most)
      (itemsUntil close item fuel []) := by
  intro ts items rest hts hok
  obtain ⟨hitems, hlength⟩ := itemsUntil_eq_ok hfirst htakes h fuel (by simp) hts hok
  have hrest := weight_le_of_suffix (leaves_itemsUntil htakes.leaves fuel [] hok)
  rw [List.length_nil] at hlength
  exact ⟨⟨hitems, by omega⟩, by omega⟩

theorem yields_comparisonLinks {P : Expr → Prop} {operand : Parser Expr}
    (h : Yields most P operand) (fuel : Nat) {acc : List (Comparison × Expr)}
    (hacc : ∀ p ∈ acc, P p.2) :
    Yields most (fun links => ∀ p ∈ links, P p.2) (comparisonLinks operand fuel acc) := by
  induction fuel generalizing acc with
  | zero => exact yields_pure (by simpa using hacc)
  | succ fuel ih =>
    rw [comparisonLinks]
    refine leaves_takeComparison?.then_yields fun op => ?_
    cases op with
    | none => exact yields_pure (by simpa using hacc)
    | some op =>
      exact h.bind fun right hright => ih (List.forall_mem_cons.mpr ⟨hright, hacc⟩)

/-- What is asked of the arguments of a call. -/
def ArgumentsHold (P : Expr → Prop) (result : List Expr × List (String × Expr)) : Prop :=
  (∀ e ∈ result.1, P e) ∧ ∀ p ∈ result.2, P p.2

theorem ArgumentsHold.reverse {P : Expr → Prop} {args : List Expr} {keywords : List (String × Expr)}
    (h : ArgumentsHold P (args, keywords)) : ArgumentsHold P (args.reverse, keywords.reverse) :=
  ⟨by simpa using h.1, by simpa using h.2⟩

theorem yields_positional {P : Expr → Prop} {expression : Parser Expr}
    (h : Yields most P expression) {args : List Expr} {keywords : List (String × Expr)}
    (hacc : ArgumentsHold P (args, keywords)) :
    Yields most (ArgumentsHold P) (callArguments.positional expression args keywords) := by
  rw [callArguments.positional]
  refine yields_unless fun _ => h.bind fun value hvalue => yields_pure ?_
  exact ⟨List.forall_mem_cons.mpr ⟨hvalue, hacc.1⟩, hacc.2⟩

theorem yields_argument {P : Expr → Prop} {expression : Parser Expr}
    (h : Yields most P expression) {args : List Expr} {keywords : List (String × Expr)}
    (hacc : ArgumentsHold P (args, keywords)) :
    Yields most (ArgumentsHold P) (callArguments.argument expression args keywords) := by
  rw [callArguments.argument]
  refine leaves_peek.then_yields fun t => leaves_peekSecond.then_yields fun _ => ?_
  split
  · refine yields_ite (yields_positional h hacc) ?_
    refine leaves_advance.then_yields fun _ => leaves_advance.then_yields fun _ => ?_
    refine yields_unless fun _ => h.bind fun value hvalue => yields_pure ?_
    exact ⟨hacc.1, List.forall_mem_cons.mpr ⟨hvalue, hacc.2⟩⟩
  · exact yields_positional h hacc

theorem yields_callArguments {P : Expr → Prop} {expression : Parser Expr}
    (h : Yields most P expression) (fuel : Nat) {args : List Expr} {keywords : List (String × Expr)}
    (hacc : ArgumentsHold P (args, keywords)) :
    Yields most (ArgumentsHold P) (callArguments expression fuel args keywords) := by
  induction fuel generalizing args keywords with
  | zero => exact yields_pure hacc.reverse
  | succ fuel ih =>
    rw [callArguments]
    refine (leaves_atSymbol _).then_yields fun _ => yields_ite (yields_pure hacc.reverse) ?_
    refine (yields_argument h hacc).bind fun result hresult => ?_
    exact (leaves_takeSymbol? _).then_yields fun _ =>
      yields_ite (ih hresult) (yields_pure hresult.reverse)

/-! ### Levels -/

/-- The parsers of a level give trees that can be built up with `n` levels left. -/
structure Level.Derives (leaf : Expr → Prop) (most n : Nat) (next : Level) : Prop where
  expression : Yields most (Derived leaf most n (.next .conditional)) next.expression
  negation : Yields most (Derived leaf most n (.next .negation)) next.negation
  signed : Yields most (Derived leaf most n (.next .signed)) next.signed
  bracket : ∀ (body : Parser Expr → Parser Expr) (P : Expr → Prop),
    (∀ m p, n = m + 1 → Takes (begunBy · .conditional) p →
      Yields most (Derived leaf most m (.next .conditional)) p → Yields most P (body p)) →
    Yields most P (next.bracket body)

/-- The literals and names that are read from tokens, and the formatted texts. -/
structure Reading.LeavesHold (r : Reading) (leaf : Expr → Prop) (most : Nat) : Prop where
  int : ∀ i, leaf (.int i)
  float : ∀ x, leaf (.float x)
  str : ∀ s : String, s.length ≤ most → leaf (.str s)
  word : ∀ word e, wordExpr? word = some e → leaf e
  formatted : ∀ (body : String) line e, body.length ≤ most → r.formatted body line = .ok e → leaf e

/-- What a bracket gives, from what the parser of the expressions in it gives. -/
theorem Level.Derives.enclosed (hnext : next.Derives leaf most n)
    {body : Parser Expr → Parser Expr}
    (h : ∀ m p, Takes (begunBy · .conditional) p →
      Yields most (Derived leaf most m (.next .conditional)) p →
      Yields most (Derived leaf most (m + 1) (.here .atom)) (body p)) :
    Yields most (Derived leaf most n (.here .atom)) (next.bracket body) :=
  hnext.bracket body _ fun m p hn htakes hp => hn ▸ h m p htakes hp

theorem yields_parenthesized {p : Parser Expr}
    (h : Yields most (Derived leaf most n (.next .conditional)) p) :
    Yields most (Derived leaf most (n + 1) (.here .atom)) (parenthesized p) := by
  refine h.bind fun inner hinner => (leaves_atSymbol _).then_yields fun _ => ?_
  exact yields_unless fun _ => (leaves_expectSymbol _).then_yields fun _ =>
    yields_pure (.enclosed hinner)

theorem yields_listItems {p : Parser Expr} (htakes : Takes (begunBy · .conditional) p)
    (h : Yields most (Derived leaf most n (.next .conditional)) p) :
    Yields most (Derived leaf most (n + 1) (.here .atom)) (listItems r p) := by
  refine (yields_itemsUntil (fun _ => weight_pos_of_begunBy) htakes h _).bind
    fun items hitems => ?_
  exact (leaves_expectSymbol _).then_yields fun _ => yields_pure (.list hitems.1 hitems.2)

theorem yields_dictEntries {p : Parser Expr} (htakes : Takes (begunBy · .conditional) p)
    (h : Yields most (Derived leaf most n (.next .conditional)) p) :
    Yields most (Derived leaf most (n + 1) (.here .atom)) (dictEntries r p) := by
  have hafter (key : Expr) : Leaves (expectSymbol .colon >>= fun _ => p >>= fun value =>
      (pure (key, value) : Parser (Expr × Expr))) :=
    (leaves_expectSymbol _).bind fun _ => htakes.leaves.bind fun _ => leaves_pure _
  have hentry : Yields most (fun p => Derived leaf most n (.next .conditional) p.1 ∧
      Derived leaf most n (.next .conditional) p.2) (dictEntry p) := by
    refine h.bind fun key hkey => (leaves_expectSymbol _).then_yields fun _ => ?_
    exact h.bind fun value hvalue => yields_pure ⟨hkey, hvalue⟩
  have htakesEntry : Takes (begunBy · .conditional) (dictEntry p) := htakes.bind hafter
  refine (yields_itemsUntil (fun _ => weight_pos_of_begunBy) htakesEntry hentry _).bind
    fun entries he => ?_
  exact (leaves_expectSymbol _).then_yields fun _ =>
    yields_pure (.dict (fun p hp => (he.1 p hp).1) fun p hp => (he.1 p hp).2)

theorem yields_atom (hr : r.LeavesHold leaf most) (hleaves : next.Leaves)
    (hnext : next.Derives leaf most n) :
    Yields most (Derived leaf most n (.here .atom)) (Grammar.atom r next) := by
  intro ts e rest hts hok
  have hrest : weight rest ≤ weight ts :=
    weight_le_of_suffix ((takes_atom hleaves).leaves hok)
  have hdrop : weight (ts.drop 1) ≤ most :=
    Nat.le_trans (weight_le_of_suffix (List.drop_suffix 1 ts)) hts
  refine ⟨?_, Nat.le_trans hrest hts⟩
  unfold Grammar.atom at hok
  split at hok
  · cases hok
    exact .leaf (hr.int _)
  · cases hok
    exact .leaf (hr.float _)
  · next s hs =>
    cases hok
    refine .leaf (hr.str _ ?_)
    have hhead := weight_of_headKind hs nofun
    have htexts := length_adjacentTexts_le (ts.drop 1)
    rw [String.length_append]
    simp only [TokenKind.weight] at hhead
    omega
  · next body hbody =>
    split at hok
    · next e hformatted =>
      cases hok
      have hhead := weight_of_headKind hbody nofun
      simp only [TokenKind.weight] at hhead
      exact .leaf (hr.formatted _ _ _ (by omega) hformatted)
    · cases hok
  · next word hword =>
    split at hok
    · next e hexpr =>
      cases hok
      exact .leaf (hr.word _ _ hexpr)
    · cases hok
  · exact (hnext.enclosed (fun m p _ hp => yields_parenthesized hp) hdrop hok).1
  · exact (hnext.enclosed (fun m p htakes hp => yields_listItems htakes hp) hdrop hok).1
  · exact (hnext.enclosed (fun m p htakes hp => yields_dictEntries htakes hp) hdrop hok).1
  · cases hok

theorem yields_subscript {p : Parser Expr}
    (h : Yields most (Derived leaf most n (.next .conditional)) p) {target : Expr}
    (htarget : Derived leaf most n (.here .postfixed) target) :
    Yields most (Derived leaf most n (.here .postfixed)) (subscript p target) := by
  have hbound {Q : Expr → Prop} {f : Option Expr → Parser Expr}
      (hf : ∀ bound : Option Expr, (∀ e ∈ bound, Derived leaf most n (.next .conditional) e) →
        Yields most Q (f bound)) (absent : Bool) :
      Yields most Q
        (if absent = true then pure Option.none >>= f else some <$> p >>= f) := by
    refine yields_ite ?_ ?_
    · exact hf Option.none (by simp)
    · refine Yields.bind (P := fun bound => ∀ e ∈ bound, Derived leaf most n (.next .conditional) e)
        ?_ hf
      exact h.bind fun e he => yields_pure (by simpa using he)
  refine (leaves_atSymbol _).then_yields fun absent => hbound (fun start hstart => ?_) absent
  refine (leaves_takeSymbol? _).then_yields fun _ => yields_ite ?_ ?_
  · refine (leaves_atSymbol _).then_yields fun absent => hbound (fun stop hstop => ?_) absent
    exact (leaves_expectSymbol _).then_yields fun _ => yields_pure (.slice htarget hstart hstop)
  · refine (leaves_expectSymbol _).then_yields fun _ => ?_
    cases start with
    | none => exact yields_failUnexpected
    | some i => exact yields_pure (.index htarget (hstart i rfl))

theorem yields_trailers (hnext : next.Derives leaf most n)
    (fuel : Nat) {e : Expr} (he : Derived leaf most n (.here .postfixed) e) :
    Yields most (Derived leaf most n (.here .postfixed)) (trailers r next fuel e) := by
  induction fuel generalizing e with
  | zero => exact yields_pure he
  | succ fuel ih =>
    rw [trailers]
    refine leaves_peek.then_yields fun t => ?_
    split
    · refine leaves_advance.then_yields fun _ => ?_
      refine (yields_callArguments hnext.expression _ ⟨by simp, by simp⟩).bind
        fun result hresult => ?_
      exact (leaves_expectSymbol _).then_yields fun _ => ih (.call he hresult.1 hresult.2)
    · refine leaves_advance.then_yields fun _ => ?_
      exact (yields_subscript hnext.expression he).bind fun e he => ih he
    · exact leaves_advance.then_yields fun _ => leaves_identifier.then_yields fun name =>
        ih (.member name he)
    · exact yields_pure he

/-- The operators of a rank that is a chain join trees of the rank with trees of the next one. -/
theorem Derived.join {t : TokenKind} {join : Expr → Expr → Expr} (ht : k.joinOf? t = some join)
    {left right : Expr} (hleft : Derived leaf most n (.here k) left)
    (hright : Derived leaf most n (.here k.tighter) right) :
    Derived leaf most n (.here k) (join left right) := by
  cases k with
  | disjunction =>
    obtain ⟨word, rfl, hword⟩ : ∃ word, t = .name word ∧ disjunctionOf? t = some join := by
      cases t <;> first | exact ⟨_, rfl, ht⟩ | cases ht
    rw [disjunctionOf?] at hword
    split_ifs at hword
    cases hword
    exact .logic .or hleft hright
  | conjunction =>
    obtain ⟨word, rfl, hword⟩ : ∃ word, t = .name word ∧ conjunctionOf? t = some join := by
      cases t <;> first | exact ⟨_, rfl, ht⟩ | cases ht
    rw [conjunctionOf?] at hword
    split_ifs at hword
    cases hword
    exact .logic .and hleft hright
  | sum =>
    rw [joinOf?, sumOf?.eq_def] at ht
    split at ht <;> cases ht
    · exact .binary .add rfl hleft hright
    · exact .binary .sub rfl hleft hright
  | product =>
    rw [joinOf?, productOf?.eq_def] at ht
    split at ht <;> cases ht
    · exact .binary .mul rfl hleft hright
    · exact .binary .div rfl hleft hright
    · exact .binary .floorDiv rfl hleft hright
    · exact .binary .mod rfl hleft hright
  | _ => cases ht

theorem yields_resume (hnext : next.Derives leaf most n)
    (hk : k.isLeftNested = true)
    (h : Yields most (Derived leaf most n (.here k.tighter)) (k.tighter.parser r next)) (fuel : Nat)
    {e : Expr} (he : Derived leaf most n (.here k) e) :
    Yields most (Derived leaf most n (.here k)) (k.resume r next fuel e) := by
  by_cases hpostfixed : k = .postfixed
  · subst hpostfixed
    exact yields_trailers hnext fuel he
  · rw [resume, if_neg hpostfixed]
    exact yields_leftChain h (fun t join ht left right hleft hright => hleft.join ht hright) fuel he

/-- A rank gives derived trees if the next tighter one does. -/
theorem Parser.Yields.looser (hnext : next.Derives leaf most n)
    (h : Yields most (Derived leaf most n (.here k.tighter)) (k.tighter.parser r next)) :
    Yields most (Derived leaf most n (.here k)) (k.parser r next) := by
  by_cases hnested : k.isLeftNested = true
  · rw [parser_of_isLeftNested hnested]
    exact h.bind fun e he => yields_resume hnext hnested h _ (.looser he)
  cases k with
  | disjunction | conjunction | sum | product | postfixed => exact absurd rfl hnested
  | atom => exact h
  | conditional =>
    refine h.bind fun body hbody => ?_
    refine (leaves_takeWord? _).then_yields fun _ => yields_ite ?_ (yields_pure (.looser hbody))
    refine h.bind fun test htest => ?_
    refine (leaves_expectWord _).then_yields fun _ => ?_
    exact hnext.expression.bind fun otherwise hotherwise =>
      yields_pure (.conditional htest hbody hotherwise)
  | comparison =>
    refine h.bind fun first hfirst => ?_
    refine (yields_comparisonLinks h _ (by simp)).bind fun links hlinks => yields_pure ?_
    split_ifs
    · exact .looser hfirst
    · exact .compare hfirst hlinks
  | power =>
    refine h.bind fun base hbase => ?_
    refine (leaves_takeSymbol? _).then_yields fun _ => yields_ite ?_ (yields_pure (.looser hbase))
    exact hnext.signed.bind fun exponent hexponent =>
      yields_pure (.power hbase hexponent)
  | negation =>
    refine (leaves_takeWord? _).then_yields fun _ =>
      yields_ite ?_ (h.mono fun _ => .looser)
    exact hnext.negation.bind fun operand hoperand =>
      yields_pure (.unary .not hoperand)
  | signed =>
    refine leaves_peek.then_yields fun t => ?_
    cases hsign : signOf? t with
    | none => exact h.mono fun _ => .looser
    | some op =>
      have hop : op.rank = .signed := by
        rw [signOf?.eq_def] at hsign
        split at hsign <;> cases hsign <;> rfl
      refine leaves_advance.then_yields fun _ => ?_
      refine hnext.signed.bind fun operand hoperand => yields_pure ?_
      exact hop ▸ .unary op (hop.symm ▸ hoperand)

/-- The parser of each rank gives derived trees. -/
theorem yields_of_rank (hr : r.LeavesHold leaf most) (hleaves : next.Leaves)
    (hnext : next.Derives leaf most n) (k : Rank) :
    Yields most (Derived leaf most n (.here k)) (k.parser r next) := by
  have hatom : Yields most (Derived leaf most n (.here .atom)) (Rank.atom.parser r next) :=
    yields_atom hr hleaves hnext
  have hpostfixed := Yields.looser (k := .postfixed) hnext hatom
  have hpower := Yields.looser (k := .power) hnext hpostfixed
  have hsigned := Yields.looser (k := .signed) hnext hpower
  have hproduct := Yields.looser (k := .product) hnext hsigned
  have hsum := Yields.looser (k := .sum) hnext hproduct
  have hcomparison := Yields.looser (k := .comparison) hnext hsum
  have hnegation := Yields.looser (k := .negation) hnext hcomparison
  have hconjunction := Yields.looser (k := .conjunction) hnext hnegation
  have hdisjunction := Yields.looser (k := .disjunction) hnext hconjunction
  have hconditional := Yields.looser (k := .conditional) hnext hdisjunction
  cases k <;> assumption

theorem Level.derives_ofBudget (hr : r.LeavesHold leaf most) (budget : Nat) :
    (Level.ofBudget r budget).Derives leaf most budget := by
  induction budget with
  | zero => exact ⟨nofun, nofun, nofun, fun _ _ _ => nofun⟩
  | succ budget ih =>
    have hleaves : (Level.ofBudget r budget).Leaves := Level.leaves_ofBudget budget
    exact
      { expression := (yields_of_rank hr hleaves ih .conditional).mono fun _ => .enter
        negation := (yields_of_rank hr hleaves ih .negation).mono fun _ => .enter
        signed := (yields_of_rank hr hleaves ih .signed).mono fun _ => .enter
        bracket := fun body P hbody => hbody budget _ rfl hleaves.expression ih.expression }

/-- The parser of a whole expression gives trees that can be built up with all nesting levels. -/
theorem derived_expression (hr : r.LeavesHold leaf most) :
    Yields most (Derived leaf most maxNesting (.next .conditional)) (expression r) :=
  (Level.derives_ofBudget hr maxNesting).expression

end NoteShell.Grammar
