import NoteShell.Proofs.Parsing.Readable

/-!
# Reading sequences

Items with commas between them, call arguments and comparison chains are read by loops with an
accumulator. Each loop is shown to read back what was written, by induction on the sequence, given
that its members are read back. The number of tokens bounds the number of rounds, since every member
has at least one token.

## Main results

* `leads_itemsUntil` : items up to a closing symbol.
* `leads_callArguments` : the arguments of a call, those with a name last.
* `leads_comparisonLinks` : the links of a comparison chain.
-/

namespace NoteShell.Grammar

open NoteShell.Grammar.Parser NoteShell.Grammar.Rank NoteShell.Grammar.Expr

variable {α : Type} {r : Reading} {next : Level}

/-- The first of several separated parts, and what stands after it. -/
theorem kinds_eq_separated {part : List TokenKind} {parts : List (List TokenKind)}
    {ts : List Token} (h : kinds ts = separated (part :: parts)) :
    ∃ us us', ts = us ++ us' ∧ kinds us = part ∧
      (parts = [] ∧ us' = [] ∨ parts ≠ [] ∧
        ∃ comma rest, us' = comma :: rest ∧ comma.kind = .symbol .comma ∧
          kinds rest = separated parts) := by
  cases parts with
  | nil => exact ⟨ts, [], (List.append_nil ts).symm, h, .inl ⟨rfl, rfl⟩⟩
  | cons next parts =>
    rw [separated] at h
    obtain ⟨us, us', rfl, hus, hus'⟩ := kinds_eq_append h
    obtain ⟨comma, rest, rfl, hcomma, hrest⟩ := kinds_eq_cons hus'
    exact ⟨us, comma :: rest, rfl, hus,
      .inr ⟨List.cons_ne_nil _ _, comma, rest, rfl, hcomma, hrest⟩⟩

theorem takeSymbol?_of_kind {s : Symbol} {t : Token} {ts : List Token} (h : t.kind = .symbol s) :
    takeSymbol? s (t :: ts) = .ok (true, ts) := by
  rw [takeSymbol?, if_pos (isSymbol_of_kind h)]
  rfl

theorem takeSymbol?_of_ne {s s' : Symbol} {t : Token} {ts : List Token} (h : t.kind = .symbol s')
    (hne : s ≠ s') : takeSymbol? s (t :: ts) = .ok (false, t :: ts) := by
  simp [takeSymbol?, headKind, isSymbol, h, hne]

/-- No expression begins with a separating or closing symbol. -/
theorem isSymbol_of_opens {k : Rank} {ts : List Token} {s : Symbol} (h : Opens k ts)
    (hs : s = .colon ∨ s.closes = true) : isSymbol s (headKind ts) = false := by
  have hbegun := h.head
  generalize headKind ts = t at hbegun
  cases t with
  | symbol s' =>
    by_contra hne
    obtain rfl : s = s' := by simpa [isSymbol] using hne
    rcases hs with rfl | hs
    · cases k <;> revert hbegun <;> decide
    · cases s <;> first | exact absurd hs (by decide) | (cases k <;> revert hbegun <;> decide)
  | _ => rfl

/-! ### Items -/

/-- Some item is read back wherever tokens follow that extend no expression. -/
def ItemReads (r : Reading) (item : Parser α) (x : α) (written : List TokenKind)
    (fits : Prop) : Prop :=
  ∀ ts : List Token, kinds ts = written → ts.length ≤ r.bound → ∀ rest, Stops .conditional rest →
    Leads item (pure x) fits (ts ++ rest) rest

/-- Items up to a closing symbol are read back. -/
theorem leads_itemsUntil {close : Symbol} {item : Parser α} {write : α → List TokenKind}
    {fits : α → Prop} (hclose : close.closes = true) {c : Token} (hc : c.kind = .symbol close)
    (rest : List Token) (xs : List α) (hbegins : ∀ x ∈ xs, Begins .conditional (write x))
    (hitem : ∀ x ∈ xs, ItemReads r item x (write x) (fits x)) (fuel : Nat) (acc : List α)
    (ts : List Token) (hts : kinds ts = separated (xs.map write)) (hfuel : ts.length ≤ fuel)
    (hlen : ts.length ≤ r.bound) :
    Leads (itemsUntil close item fuel acc) (pure (acc.reverse ++ xs)) (∀ x ∈ xs, fits x)
      (ts ++ c :: rest) (c :: rest) := by
  induction xs generalizing fuel acc ts with
  | nil =>
    obtain rfl := kinds_eq_nil hts
    have hdone : itemsUntil close item fuel acc (c :: rest) = .ok (acc.reverse, c :: rest) := by
      cases fuel with
      | zero => rfl
      | succ fuel =>
        rw [itemsUntil, bind_of_ok (atSymbol_of_isSymbol (isSymbol_of_kind hc))]
        rfl
    rw [List.append_nil, List.nil_append]
    exact .eq_trans (q := pure acc.reverse) hdone ((Leads.refl _ _).congr (by simp))
  | cons x xs ih =>
    obtain ⟨us, us', rfl, hus, hafter⟩ := kinds_eq_separated hts
    have hopens : Opens .conditional us := Begins.opens (hus ▸ hbegins x List.mem_cons_self)
    have hpos := hopens.length_pos
    rw [List.length_append] at hfuel hlen
    obtain ⟨fuel, rfl⟩ : ∃ f, fuel = f + 1 := Nat.exists_eq_succ_of_ne_zero (by omega)
    have hnot : isSymbol close (headKind (us ++ us' ++ c :: rest)) = false :=
      isSymbol_of_opens ((hopens.append us').append _) (.inr hclose)
    have hx := hitem x List.mem_cons_self us hus (by omega)
    rw [itemsUntil]
    refine .step_false (atSymbol_of_isSymbol hnot) ?_
    rw [List.append_assoc]
    rcases hafter with ⟨hxs, rfl⟩ | ⟨-, comma, tail, rfl, hcomma, htail⟩
    · obtain rfl : xs = [] := List.map_eq_nil_iff.mp hxs
      refine ((hx _ (stops_of_closes hc (.inr (.inr hclose)))).bind ?_).congr
        ((and_iff_left trivial).trans (by simp))
      refine .step_false (takeSymbol?_of_ne hc (by rintro rfl; exact absurd hclose (by decide))) ?_
      rw [List.reverse_cons]
      exact .refl _ _
    · refine ((hx _ (stops_of_closes hcomma (.inl rfl))).bind ?_).congr List.forall_mem_cons.symm
      refine .step_true (takeSymbol?_of_kind hcomma) ?_
      rw [List.length_cons] at hfuel hlen
      have hrec := ih (fun y hy => hbegins y (List.mem_cons_of_mem x hy))
        (fun y hy => hitem y (List.mem_cons_of_mem x hy)) fuel (x :: acc) tail htail (by omega)
        (by omega)
      rwa [List.reverse_cons, List.append_assoc] at hrec

/-! ### Call arguments -/

/-- Where an expression begins, no equal sign comes second. -/
theorem isSymbol_assign_second {k : Rank} {ts rest : List Token} (h : Begins k (kinds ts))
    (hrest : headKind rest ≠ .symbol .assign) :
    isSymbol .assign (headKind ((ts ++ rest).drop 1)) = false := by
  obtain ⟨t, more, heq, -, hmore⟩ := h
  obtain ⟨u, us, rfl, -, hus⟩ := kinds_eq_cons heq
  refine isSymbol_eq_false ?_
  cases us with
  | nil => exact hrest
  | cons v us =>
    rw [← hus] at hmore
    exact fun hv => hmore (congrArg some hv)

variable {expression : Parser Expr} {args args' : List Expr} {named named' : List (String × Expr)}
  {e : Expr} {fits : Prop} {ts rest : List Token}

theorem callArguments_of_close {c : Token} (hc : c.kind = .symbol .closeParen) (fuel : Nat) :
    callArguments expression fuel args named (c :: rest) =
      .ok ((args.reverse, named.reverse), c :: rest) := by
  cases fuel with
  | zero => rfl
  | succ fuel =>
    rw [callArguments, bind_of_ok (atSymbol_of_isSymbol (isSymbol_of_kind hc))]
    rfl

/-- An argument with a comma after it, of which more arguments may follow. -/
theorem leads_callArguments_comma {comma : Token} {fuel : Nat} (hopens : Opens .conditional ts)
    (hcomma : comma.kind = .symbol .comma)
    (h : Leads (callArguments.argument expression args named) (pure (args', named')) fits
      (ts ++ comma :: rest) (comma :: rest)) :
    Leads (callArguments expression (fuel + 1) args named)
      (callArguments expression fuel args' named') fits (ts ++ comma :: rest) rest := by
  rw [callArguments]
  refine .step_false (atSymbol_of_isSymbol
    (isSymbol_of_opens (hopens.append _) (.inr (by decide)))) ?_
  refine (h.bind ?_).congr (and_iff_left trivial)
  exact .step_true (takeSymbol?_of_kind hcomma) (.refl _ _)

/-- An argument with the closing parenthesis after it. -/
theorem leads_callArguments_last {c : Token} {fuel : Nat} (hopens : Opens .conditional ts)
    (hc : c.kind = .symbol .closeParen)
    (h : Leads (callArguments.argument expression args named) (pure (args', named')) fits
      (ts ++ c :: rest) (c :: rest)) :
    Leads (callArguments expression (fuel + 1) args named) (pure (args'.reverse, named'.reverse))
      fits (ts ++ c :: rest) (c :: rest) := by
  rw [callArguments]
  refine .step_false (atSymbol_of_isSymbol
    (isSymbol_of_opens (hopens.append _) (.inr (by decide)))) ?_
  refine (h.bind ?_).congr (and_iff_left trivial)
  exact .step_false (takeSymbol?_of_ne hc (by decide)) (.refl _ _)

/-- An argument without a name, before any that has one. -/
theorem leads_argument_positional (hbegins : Begins .conditional (kinds ts))
    (hrest : headKind rest ≠ .symbol .assign)
    (h : Leads expression (pure e) fits (ts ++ rest) rest) :
    Leads (callArguments.argument expression args []) (pure (e :: args, [])) fits
      (ts ++ rest) rest := by
  rw [callArguments.argument]
  refine .step (p := peek) rfl (.step (p := peekSecond) rfl ?_)
  rw [isSymbol_assign_second hbegins hrest]
  have hpositional : Leads (callArguments.positional expression args []) (pure (e :: args, [])) fits
      (ts ++ rest) rest :=
    (h.bind (.refl _ _)).congr (and_iff_left trivial)
  split
  · contradiction
  · exact hpositional

/-- An argument with a name that has not been given before. -/
theorem leads_argument_named {n : String} {name equal : Token} (hname : name.kind = .name n)
    (hequal : equal.kind = .symbol .assign) (hkeyword : isKeyword n = false)
    (hnew : ∀ p ∈ named, p.1 ≠ n) (h : Leads expression (pure e) fits (ts ++ rest) rest) :
    Leads (callArguments.argument expression args named) (pure (args, (n, e) :: named)) fits
      (name :: equal :: ts ++ rest) rest := by
  have hany : named.any (fun p => p.1 == n) = false := by
    simpa using hnew
  rw [callArguments.argument]
  refine .step (p := peek) rfl (.step (p := peekSecond) rfl ?_)
  simp only [List.cons_append, headKind, List.drop_succ_cons, List.drop_zero, hname, hequal,
    isSymbol, beq_self_eq_true, hkeyword, hany, Bool.false_eq_true, if_false]
  refine .step (p := advance) rfl (.step (p := advance) rfl ?_)
  exact (h.bind (.refl _ _)).congr (and_iff_left trivial)

theorem wordExpr?_isSome {n : String} (h : isKeyword n = false) : (wordExpr? n).isSome = true := by
  unfold wordExpr?
  split_ifs <;> simp_all

/-- Named arguments up to the closing parenthesis are read back. -/
theorem leads_namedArguments {c : Token} (hc : c.kind = .symbol .closeParen) (rest : List Token)
    {n : Nat} (ps : List (String × Expr))
    (hvalues : ∀ p ∈ ps, ItemReads r expression p.2 p.2.tokens (p.2.scopes + 1 ≤ n))
    (hnames : ∀ p ∈ ps, isKeyword p.1 = false) (hdistinct : (ps.map (·.1)).Nodup) (fuel : Nat)
    (args : List Expr) (named : List (String × Expr)) (hnew : ∀ q ∈ named, ∀ p ∈ ps, q.1 ≠ p.1)
    (ts : List Token) (hts : kinds ts = separated (keywordTokens ps)) (hfuel : ts.length ≤ fuel)
    (hlen : ts.length ≤ r.bound) :
    Leads (callArguments expression fuel args named) (pure (args.reverse, named.reverse ++ ps))
      (keywordScopes ps ≤ n) (ts ++ c :: rest) (c :: rest) := by
  induction ps generalizing fuel named ts with
  | nil =>
    obtain rfl := kinds_eq_nil hts
    rw [List.append_nil, List.nil_append]
    exact .eq_trans (q := pure (args.reverse, named.reverse)) (callArguments_of_close hc fuel)
      ((Leads.refl _ _).congr (by simp [keywordScopes]))
  | cons p ps ih =>
    obtain ⟨name, value⟩ := p
    rw [keywordTokens] at hts
    obtain ⟨us, us', rfl, hus, hafter⟩ := kinds_eq_separated hts
    obtain ⟨u, us, rfl, hname, hus⟩ := kinds_eq_cons hus
    obtain ⟨equal, us, rfl, hequal, hus⟩ := kinds_eq_cons hus
    have hkeyword := hnames _ List.mem_cons_self
    have hopens : Opens .conditional (u :: equal :: us) := by
      refine ⟨u, _, rfl, ?_⟩
      simp [begunBy, opensAtom, hname, wordExpr?_isSome hkeyword]
    simp only [List.length_append, List.length_cons] at hfuel hlen
    obtain ⟨fuel, rfl⟩ : ∃ f, fuel = f + 1 := Nat.exists_eq_succ_of_ne_zero (by omega)
    have hvalue := hvalues _ List.mem_cons_self us hus (by omega)
    have hfresh : ∀ q ∈ named, q.1 ≠ name := fun q hq => hnew q hq _ List.mem_cons_self
    rw [List.append_assoc]
    rcases hafter with ⟨hps, rfl⟩ | ⟨-, comma, tail, rfl, hcomma, htail⟩
    · obtain rfl : ps = [] := by rwa [keywordTokens_eq_map, List.map_eq_nil_iff] at hps
      rw [← List.reverse_cons]
      refine (leads_callArguments_last hopens hc (leads_argument_named hname hequal hkeyword hfresh
        (hvalue _ (stops_of_closes hc (.inr (.inr rfl)))))).congr ?_
      simp [keywordScopes]
    · have hrec := ih (fun q hq => hvalues q (List.mem_cons_of_mem _ hq))
        (fun q hq => hnames q (List.mem_cons_of_mem _ hq)) (List.nodup_cons.mp hdistinct).2 fuel
        ((name, value) :: named) ?_ tail htail (by simp at hfuel; omega) (by simp at hlen; omega)
      · rw [List.reverse_cons, List.append_assoc] at hrec
        refine ((leads_callArguments_comma hopens hcomma (leads_argument_named hname hequal hkeyword
          hfresh (hvalue _ (stops_of_closes hcomma (.inl rfl))))).trans hrec).congr ?_
        exact Nat.max_le.symm
      · intro q hq p hp
        rcases List.mem_cons.mp hq with rfl | hq
        · exact fun heq => (List.nodup_cons.mp hdistinct).1 (List.mem_map.mpr ⟨p, hp, heq.symm⟩)
        · exact hnew q hq p (List.mem_cons_of_mem _ hp)

/-- The arguments of a call up to the closing parenthesis are read back. -/
theorem leads_callArguments (expression : Parser Expr) {c : Token}
    (hc : c.kind = .symbol .closeParen) (rest : List Token) {n : Nat} (es : List Expr)
    (ps : List (String × Expr)) (hbegins : ∀ e ∈ es, Begins .conditional e.tokens)
    (hitems : ∀ e ∈ es, ItemReads r expression e e.tokens (e.scopes + 1 ≤ n))
    (hvalues : ∀ p ∈ ps, ItemReads r expression p.2 p.2.tokens (p.2.scopes + 1 ≤ n))
    (hnames : ∀ p ∈ ps, isKeyword p.1 = false) (hdistinct : (ps.map (·.1)).Nodup) (fuel : Nat)
    (args : List Expr) (ts : List Token)
    (hts : kinds ts = separated (itemTokens es ++ keywordTokens ps)) (hfuel : ts.length ≤ fuel)
    (hlen : ts.length ≤ r.bound) :
    Leads (callArguments expression fuel args []) (pure (args.reverse ++ es, ps))
      (itemScopes es ≤ n ∧ keywordScopes ps ≤ n) (ts ++ c :: rest) (c :: rest) := by
  induction es generalizing fuel args ts with
  | nil =>
    rw [List.append_nil]
    refine (leads_namedArguments hc rest ps hvalues hnames hdistinct fuel args [] (by simp) ts hts
      hfuel hlen).congr ?_
    simp [itemScopes]
  | cons e es ih =>
    rw [itemTokens, List.cons_append] at hts
    obtain ⟨us, us', rfl, hus, hafter⟩ := kinds_eq_separated hts
    have hbegin : Begins .conditional (kinds us) := hus ▸ hbegins e List.mem_cons_self
    have hpos := hbegin.opens.length_pos
    rw [List.length_append] at hfuel hlen
    obtain ⟨fuel, rfl⟩ : ∃ f, fuel = f + 1 := Nat.exists_eq_succ_of_ne_zero (by omega)
    have hitem := hitems e List.mem_cons_self us hus (by omega)
    have hargument {t : Token} {rest : List Token}
        (ht : t.kind = .symbol .comma ∨ t.kind = .symbol .closeParen) :
        Leads (callArguments.argument expression args []) (pure (e :: args, [])) (e.scopes + 1 ≤ n)
          (us ++ t :: rest) (t :: rest) := by
      refine leads_argument_positional hbegin ?_ (hitem _ ?_)
      · rcases ht with ht | ht <;> simp [headKind, ht]
      · rcases ht with ht | ht
        · exact stops_of_closes ht (.inl rfl)
        · exact stops_of_closes ht (.inr (.inr rfl))
    rw [List.append_assoc]
    rcases hafter with ⟨hparts, rfl⟩ | ⟨-, comma, tail, rfl, hcomma, htail⟩
    · obtain ⟨hes, hps⟩ := List.append_eq_nil_iff.mp hparts
      obtain rfl : es = [] := by rwa [itemTokens_eq_map, List.map_eq_nil_iff] at hes
      obtain rfl : ps = [] := by rwa [keywordTokens_eq_map, List.map_eq_nil_iff] at hps
      rw [← List.reverse_cons]
      refine (leads_callArguments_last hbegin.opens hc (hargument (.inr hc))).congr ?_
      simp [itemScopes, keywordScopes]
    · have hrec := ih (fun x hx => hbegins x (List.mem_cons_of_mem _ hx))
        (fun x hx => hitems x (List.mem_cons_of_mem _ hx)) fuel (e :: args) tail htail
        (by simp at hfuel; omega) (by simp at hlen; omega)
      rw [List.reverse_cons, List.append_assoc] at hrec
      refine ((leads_callArguments_comma hbegin.opens hcomma (hargument (.inl hcomma))).trans
        hrec).congr ?_
      simp only [itemScopes, Nat.max_le, and_assoc]

/-! ### Comparison chains -/

theorem takeComparison?_of_some {op : Comparison} {count : Nat} (ts : List Token)
    (h : comparisonOf? (headKind ts) (headKind (ts.drop 1)) = some (op, count)) :
    takeComparison? ts = .ok (some op, ts.drop count) := by
  simp only [takeComparison?, h]

/-- A comparison operator before an operand is taken whole. -/
theorem takeComparison?_of_kinds {op : Comparison} {us : List Token} (hus : kinds us = op.tokens)
    (hopens : Opens .sum ts) : takeComparison? (us ++ ts) = .ok (some op, ts) := by
  have hnot : isWord "not" (headKind ts) = false :=
    isWord_not_of_begunBy_comparison (begunBy_mono hopens.head (by decide))
  have hone {k : TokenKind} (hk : kinds us = [k])
      (hop : comparisonOf? k (headKind ts) = some (op, 1)) :
      takeComparison? (us ++ ts) = .ok (some op, ts) := by
    obtain ⟨t, us, rfl, rfl, hnil⟩ := kinds_eq_cons hk
    obtain rfl := kinds_eq_nil hnil
    exact takeComparison?_of_some (t :: ts) hop
  have htwo {k k' : TokenKind} (hk : kinds us = [k, k'])
      (hop : comparisonOf? k k' = some (op, 2)) :
        takeComparison? (us ++ ts) = .ok (some op, ts) := by
    obtain ⟨t, us, rfl, rfl, hk'⟩ := kinds_eq_cons hk
    obtain ⟨t', us, rfl, rfl, hnil⟩ := kinds_eq_cons hk'
    obtain rfl := kinds_eq_nil hnil
    exact takeComparison?_of_some (t :: t' :: ts) hop
  cases op with
  | notIn => exact htwo hus (by decide)
  | notSame => exact htwo hus (by decide)
  | same => exact hone hus (by simp [comparisonOf?, hnot])
  | isIn => exact hone hus (by simp [comparisonOf?])
  | _ => exact hone hus rfl

/-- A comparison operator extends no sum. -/
theorem stops_of_comparison {op : Comparison} {us : List Token} (hus : kinds us = op.tokens) :
    Stops .sum (us ++ ts) := by
  have hsum {k : TokenKind} {ks : List TokenKind} (hk : kinds us = k :: ks)
      (h : ∀ second j, Rank.sum.tightness ≤ j.tightness → extendedBy k second j = false) :
      Stops .sum (us ++ ts) := by
    obtain ⟨t, us, rfl, rfl, -⟩ := kinds_eq_cons hk
    exact stops_cons h
  cases op <;> refine hsum hus fun second j hj => ?_ <;>
    cases j <;> first | rfl | exact absurd hj (by decide)

/-- The links of a comparison chain extend no sum. -/
theorem stops_of_linkTokens {links : List (Comparison × Expr)} (hts : kinds ts = linkTokens links)
    (hrest : Stops .comparison rest) : Stops .sum (ts ++ rest) := by
  cases links with
  | nil =>
    obtain rfl := kinds_eq_nil hts
    exact hrest.mono (by decide)
  | cons p links =>
    rw [linkTokens] at hts
    obtain ⟨us, us', rfl, hus, -⟩ := kinds_eq_append hts
    rw [List.append_assoc]
    exact stops_of_comparison hus

/-- The links of a comparison chain are read back. -/
theorem leads_comparisonLinks (operand : Parser Expr) {n : Nat} (hrest : Stops .comparison rest)
    (links : List (Comparison × Expr)) (hbegins : ∀ p ∈ links, Begins .sum (p.2.tokensAt .sum))
    (hoperand : ∀ p ∈ links, ∀ ts : List Token, kinds ts = p.2.tokensAt .sum →
      ts.length ≤ r.bound → ∀ rest, Stops .sum rest →
        Leads operand (pure p.2) (p.2.scopesAt .sum ≤ n) (ts ++ rest) rest)
    (fuel : Nat) (acc : List (Comparison × Expr)) (ts : List Token)
    (hts : kinds ts = linkTokens links) (hfuel : ts.length ≤ fuel) (hlen : ts.length ≤ r.bound) :
    Leads (comparisonLinks operand fuel acc) (pure (acc.reverse ++ links)) (linkScopes links ≤ n)
      (ts ++ rest) rest := by
  induction links generalizing fuel acc ts with
  | nil =>
    obtain rfl := kinds_eq_nil hts
    rw [List.append_nil, List.nil_append]
    exact .eq_trans (q := pure acc.reverse) (comparisonLinks_of_stops hrest fuel acc)
      ((Leads.refl _ _).congr (by simp [linkScopes]))
  | cons p links ih =>
    obtain ⟨op, e⟩ := p
    rw [linkTokens] at hts
    obtain ⟨us, us', rfl, hus, hrec⟩ := kinds_eq_append hts
    obtain ⟨es, tail, rfl, hes, htail⟩ := kinds_eq_append hrec
    have hbegin : Begins .sum (kinds es) := hes ▸ hbegins _ List.mem_cons_self
    have hpos := hbegin.opens.length_pos
    simp only [List.length_append] at hfuel hlen
    obtain ⟨fuel, rfl⟩ : ∃ f, fuel = f + 1 := Nat.exists_eq_succ_of_ne_zero (by omega)
    have hstops : Stops .sum (tail ++ rest) := stops_of_linkTokens htail hrest
    rw [comparisonLinks, List.append_assoc, List.append_assoc]
    refine .step (takeComparison?_of_kinds hus (hbegin.opens.append _)) ?_
    have hread := hoperand _ List.mem_cons_self es hes (by omega) _ hstops
    have hlinks := ih (fun q hq => hbegins q (List.mem_cons_of_mem _ hq))
      (fun q hq => hoperand q (List.mem_cons_of_mem _ hq)) fuel ((op, e) :: acc) tail htail
      (by omega) (by omega)
    rw [List.reverse_cons, List.append_assoc] at hlinks
    exact (hread.bind hlinks).congr Nat.max_le.symm

end NoteShell.Grammar
