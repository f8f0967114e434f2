import NoteShell.Proofs.Parsing.Sequence

/-!
# Parsing undoes writing

The parser of expressions, run on the tokens that a tree is written as, gives the tree back, unless
reading them takes more nesting levels than are allowed. The proof is an induction on the tree. For
each constructor it is shown that the tokens without parentheses are read at the rank of the tree,
given that the parts are read back at every place.

## Main results

* `Expr.Plain.readable` : the tokens of a tree are read back at every place.
* `singleExpression_of_tokens` : the parser gives back the tree, or finds the nesting too deep.
-/

namespace NoteShell.Grammar

open NoteShell.Grammar.Parser NoteShell.Grammar.Rank NoteShell.Grammar.Expr

variable {r : Reading}

/-! ### Atoms -/

/-- A tree of one token is readable if the token is read as the tree. -/
theorem readable_of_token {e : Expr} {k : TokenKind} (he : e.Plain) (hrank : e.rank = .atom)
    (htokens : e.tokens = [k]) (hscopes : e.scopes = 0)
    (h : ∀ next (t : Token) (rest : List Token), t.kind = k → Stops .atom rest →
      Grammar.atom r next (t :: rest) = .ok (e, rest)) : Readable r e := by
  refine readable_of_bare he fun ts hts _ n => ?_
  rw [htokens] at hts
  obtain ⟨t, us, rfl, ht, hus⟩ := kinds_eq_cons hts
  obtain rfl := kinds_eq_nil hus
  rw [hrank, hscopes]
  refine .of_reads (fun rest hrest => ?_) rfl
  exact .eq_trans (q := pure e) (h _ t rest ht hrest) ((Leads.refl _ _).congr (by simp))

theorem adjacentTexts_of_stops {rest : List Token} (h : Stops .atom rest) :
    adjacentTexts rest = ("", rest) := by
  have hself := h.self
  cases rest with
  | nil => rfl
  | cons t rest =>
    rw [adjacentTexts]
    split
    · next s hs =>
      rw [headKind, hs] at hself
      cases hself
    · rfl

theorem readable_name {n : String} (hkeyword : isKeyword n = false)
    (hliteral : n ∉ ["true", "false", "null"]) : Readable r (.name n) := by
  refine readable_of_token (.name n hkeyword hliteral) rfl (by rw [tokens]) (by rw [scopes]) ?_
  intro next t rest ht _
  simp [Grammar.atom, headKind, ht, wordExpr?_of_isName hkeyword hliteral]

theorem readable_str (s : String) : Readable r (.str s) := by
  refine readable_of_token (.str s) rfl (by rw [tokens]) (by rw [scopes]) ?_
  intro next t rest ht hrest
  simp [Grammar.atom, headKind, ht, adjacentTexts_of_stops hrest]

/-! ### Brackets -/

theorem itemScopes_le_iff {items : List Expr} {n : Nat} :
    (∀ e ∈ items, e.scopes + 1 ≤ n) ↔ itemScopes items ≤ n := by
  induction items with
  | nil => simp [itemScopes]
  | cons e items ih => rw [List.forall_mem_cons, itemScopes, Nat.max_le, ih]

theorem entryScopes_le_iff {entries : List (Expr × Expr)} {n : Nat} :
    (∀ p ∈ entries, p.1.scopes + 1 ≤ n ∧ p.2.scopes + 1 ≤ n) ↔ entryScopes entries ≤ n := by
  induction entries with
  | nil => simp [entryScopes]
  | cons p entries ih => rw [List.forall_mem_cons, entryScopes, Nat.max_le, Nat.max_le, ih]

/-- A tree in brackets is readable if its inside is read on the next level. -/
theorem readable_of_bracket {e : Expr} {opener closer : Symbol} {ks : List TokenKind} {cost : Nat}
    (body : Parser Expr → Parser Expr) (he : e.Plain) (hrank : e.rank = .atom)
    (htokens : e.tokens = .symbol opener :: (ks ++ [.symbol closer]))
    (hscopes : e.scopes = cost + 1)
    (hatom : ∀ next (t : Token) (rest : List Token), t.kind = .symbol opener →
      Grammar.atom r next (t :: rest) = next.bracket body rest)
    (h : ∀ (us : List Token) (c : Token) (rest : List Token), kinds us = ks →
      us.length ≤ r.bound → c.kind = .symbol closer → ∀ n,
        Leads (body (Level.ofBudget r n).expression) (pure e) (cost ≤ n) (us ++ c :: rest) rest) :
    Readable r e := by
  refine readable_of_bare he fun ts hts hlen n => ?_
  rw [htokens] at hts
  obtain ⟨o, us, rfl, ho, hus⟩ := kinds_eq_cons hts
  obtain ⟨inner, c, rfl, hinner, hc⟩ := kinds_eq_concat hus
  rw [hrank, hscopes]
  refine .of_reads (fun rest _ => ?_) rfl
  have hlen' : inner.length ≤ r.bound := by simp at hlen; omega
  rw [List.cons_append, List.append_assoc]
  exact .eq_trans (hatom _ o _ ho)
    (Leads.bracket (fun n => h inner c rest hinner hlen' hc n) n)

theorem readable_list {items : List Expr} (hplain : ∀ e ∈ items, Plain e)
    (h : ∀ e ∈ items, Readable r e) : Readable r (.list items) := by
  refine readable_of_bracket (listItems r) (.list items hplain) rfl (by rw [tokens])
    (by rw [scopes]) (fun next t rest ht => by simp [Grammar.atom, headKind, ht]) ?_
  intro us c rest hus hlen hc n
  rw [itemTokens_eq_map] at hus
  have hitems := leads_itemsUntil (r := r) (by decide) hc rest items
    (fun e he => (hplain e he).begins.mono (Nat.zero_le _))
    (fun e he us hus hlen rest hrest => (h e he).expression hus hlen hrest n)
    r.bound [] us hus hlen hlen
  refine (hitems.bind ?_).congr ((and_iff_left trivial).trans itemScopes_le_iff)
  exact .step (expectSymbol_of_kind hc) (.refl _ _)

theorem dictEntry_reads (n : Nat) {key value : Expr} (hkey : Readable r key)
    (hvalue : Readable r value) :
    ItemReads r (dictEntry (Level.ofBudget r n).expression) (key, value)
      (key.tokens ++ .symbol .colon :: value.tokens)
      (key.scopes + 1 ≤ n ∧ value.scopes + 1 ≤ n) := by
  intro ts hts hlen rest hrest
  obtain ⟨us, us', rfl, hus, hus'⟩ := kinds_eq_append hts
  obtain ⟨colon, vs, rfl, hcolon, hvs⟩ := kinds_eq_cons hus'
  simp only [List.length_append, List.length_cons] at hlen
  rw [List.append_assoc]
  refine (hkey.expression hus (by omega) (stops_of_closes hcolon (.inr (.inl rfl))) n).bind ?_
  refine .step (expectSymbol_of_kind hcolon) ?_
  exact ((hvalue.expression hvs (by omega) hrest n).bind (.refl _ _)).congr (and_iff_left trivial)

theorem readable_dict {entries : List (Expr × Expr)} (hkeys : ∀ p ∈ entries, Plain p.1)
    (hvalues : ∀ p ∈ entries, Plain p.2) (h : ∀ p ∈ entries, Readable r p.1)
    (h' : ∀ p ∈ entries, Readable r p.2) : Readable r (.dict entries) := by
  refine readable_of_bracket (dictEntries r) (.dict entries hkeys hvalues) rfl
    (by rw [tokens]) (by rw [scopes])
      (fun next t rest ht => by simp [Grammar.atom, headKind, ht]) ?_
  intro us c rest hus hlen hc n
  rw [entryTokens_eq_map] at hus
  have hentries := leads_itemsUntil (r := r) (by decide) hc rest entries
    (fun p hp => ((hkeys p hp).begins.mono (Nat.zero_le _)).append (by simp))
    (fun p hp => dictEntry_reads n (h p hp) (h' p hp)) r.bound [] us hus hlen hlen
  refine (hentries.bind ?_).congr ((and_iff_left trivial).trans entryScopes_le_iff)
  exact .step (expectSymbol_of_kind hc) (.refl _ _)

/-! ### What follows an atom -/

/-- A tree that adds a trailer to its target is readable if a round of the loop reads the
trailer. -/
theorem readable_of_trailer {target e : Expr} {s : Symbol} {ks : List TokenKind} (fits : Nat → Prop)
    (he : e.Plain) (hrank : e.rank = .postfixed) (htarget : Readable r target)
    (htokens : e.tokens = target.tokensAt .postfixed ++ .symbol s :: ks)
    (hscopes : ∀ n, target.scopesAt .postfixed ≤ n ∧ fits n ↔ e.scopes ≤ n)
    (h : ∀ us : List Token, kinds us = .symbol s :: ks → us.length ≤ r.bound → ∀ n fuel rest,
      Leads (trailers r (Level.ofBudget r n) (fuel + 1) target)
        (trailers r (Level.ofBudget r n) fuel e) (fits n) (us ++ rest) rest) : Readable r e := by
  refine readable_of_bare he fun ts hts hlen n => ?_
  rw [htokens] at hts
  obtain ⟨ts, us, rfl, hts, hus⟩ := kinds_eq_append hts
  rw [List.length_append] at hlen
  rw [hrank]
  refine .of_grows rfl fun rest _ => ?_
  have hgrows := (htarget .postfixed ts hts (by omega) n).2 rfl
  have hstops : Stops .atom (us ++ rest) := by
    obtain ⟨u, us, rfl, hu, -⟩ := kinds_eq_cons hus
    refine stops_cons fun second j hj => ?_
    rw [hu]
    cases j <;> first | rfl | exact absurd hj (by decide)
  obtain ⟨fuel, hfuel, hleads⟩ := hgrows (us ++ rest) hstops
  have hpos : 0 < us.length := by
    obtain ⟨u, us, rfl, -, -⟩ := kinds_eq_cons hus
    exact Nat.succ_pos _
  obtain ⟨fuel, rfl⟩ : ∃ f, fuel = f + 1 := Nat.exists_eq_succ_of_ne_zero (by omega)
  refine ⟨fuel, by rw [List.length_append]; omega, ?_⟩
  rw [List.append_assoc]
  exact (hleads.trans (h us hus (by omega) n fuel rest)).congr (hscopes n)

theorem readable_member {target : Expr} {n : String} (hplain : Plain target)
    (hn : isKeyword n = false) (h : Readable r target) : Readable r (.member target n) := by
  refine readable_of_trailer (fun _ => True) (.member target n hplain hn) rfl h
    (by rw [tokens, tokensAt]) (fun n => by rw [and_iff_left trivial, scopes, scopesAt]) ?_
  intro us hus _ m fuel rest
  obtain ⟨dot, us, rfl, hdot, hus⟩ := kinds_eq_cons hus
  obtain ⟨name, us, rfl, hname, hus⟩ := kinds_eq_cons hus
  obtain rfl := kinds_eq_nil hus
  have hident : identifier (name :: rest) = .ok (n, rest) := by
    simp [identifier, headKind, hname, hn]
  rw [trailers]
  refine .step (p := peek) rfl ?_
  simp only [List.cons_append, headKind, hdot]
  exact .step (p := advance) rfl (.step hident (.refl _ _))

/-- A subscript in brackets is read as one round of the loop. -/
theorem leads_subscript {next : Level} {target e : Expr} {o : Token} {us rest : List Token}
    {fits : Prop} {fuel : Nat} (ho : o.kind = .symbol .openBracket)
    (h : Leads (subscript next.expression target) (pure e) fits us rest) :
    Leads (trailers r next (fuel + 1) target) (trailers r next fuel e) fits (o :: us) rest := by
  rw [trailers]
  refine .step (p := peek) rfl ?_
  simp only [headKind, ho]
  refine .step (p := advance) rfl ?_
  exact (h.bind (.refl _ rest)).congr (and_iff_left trivial)

/-- A bound of a slice is read back, whether it is there or not, and then the parser goes on. -/
theorem leads_bound {bound : Option Expr} {us : List Token} {t : Token} {s : Symbol}
    (h : ∀ e ∈ bound, Readable r e) (hus : kinds us = boundTokens bound)
    (hlen : us.length ≤ r.bound)
    (ht : t.kind = .symbol s) (hs : s = .colon ∨ s.closes = true) {n : Nat}
    {rest rest' : List Token}
    {f : Option Expr → Parser Expr} {q : Parser Expr} {fits : Prop}
    (hf : Leads (f bound) q fits (t :: rest) rest') :
    Leads (if bound.isNone = true then pure Option.none >>= f
        else some <$> (Level.ofBudget r n).expression >>= f)
      q (boundScopes bound ≤ n ∧ fits) (us ++ t :: rest) rest' := by
  cases bound with
  | none =>
    obtain rfl := kinds_eq_nil hus
    exact hf.congr (by simp [boundScopes])
  | some e =>
    have hstops : Stops .conditional (t :: rest) := stops_of_closes ht (.inr hs)
    have hread := (h e rfl).expression hus hlen hstops n
    exact (hread.map some).bind hf

/-- Whether a bound is missing shows in the next token. -/
theorem atSymbol_bound {bound : Option Expr} {us : List Token} {t : Token} {s : Symbol}
    (h : ∀ e ∈ bound, Plain e) (hus : kinds us = boundTokens bound) (ht : t.kind = .symbol s)
    (hs : s = .colon ∨ s.closes = true) (rest : List Token) :
    atSymbol s (us ++ t :: rest) = .ok (bound.isNone, us ++ t :: rest) := by
  cases bound with
  | none =>
    obtain rfl := kinds_eq_nil hus
    exact atSymbol_of_isSymbol (isSymbol_of_kind ht)
  | some e =>
    rw [boundTokens] at hus
    have hbegins : Begins e.rank (kinds us) := hus ▸ (h e rfl).begins
    exact atSymbol_of_isSymbol (isSymbol_of_opens (hbegins.opens.append _) hs)

theorem readable_index {target i : Expr} (hplain : Plain target) (hplain' : Plain i)
    (h : Readable r target) (h' : Readable r i) : Readable r (.index target i) := by
  refine readable_of_trailer (fun n => i.scopes + 1 ≤ n) (.index target i hplain hplain') rfl
    h (by rw [tokens, tokensAt]) (fun n => by rw [scopes, scopesAt, Nat.max_le]) ?_
  intro us hus hlen n fuel rest
  obtain ⟨o, us, rfl, ho, hus⟩ := kinds_eq_cons hus
  obtain ⟨us, c, rfl, hinner, hc⟩ := kinds_eq_concat hus
  have hbegins : Begins i.rank (kinds us) := hinner ▸ hplain'.begins
  simp only [List.length_cons, List.length_append] at hlen
  rw [List.cons_append, List.append_assoc]
  refine leads_subscript ho ?_
  rw [subscript]
  refine .step (atSymbol_of_isSymbol (isSymbol_of_opens (hbegins.opens.append _) (.inl rfl))) ?_
  have hbound : ∀ e ∈ some i, Readable r e := by simpa using h'
  refine (leads_bound hbound hinner (by omega) hc (.inr rfl) ?_).congr (and_iff_left trivial)
  refine .step_false (takeSymbol?_of_ne hc (by decide)) ?_
  exact .step (expectSymbol_of_kind hc) (.refl _ _)

theorem readable_slice {target : Expr} {start stop : Option Expr} (hplain : Plain target)
    (hstart : ∀ e ∈ start, Plain e) (hstop : ∀ e ∈ stop, Plain e) (h : Readable r target)
    (hstart' : ∀ e ∈ start, Readable r e) (hstop' : ∀ e ∈ stop, Readable r e) :
    Readable r (.slice target start stop) := by
  refine readable_of_trailer (fun n => boundScopes start ≤ n ∧ boundScopes stop ≤ n)
    (.slice target start stop hplain hstart hstop) rfl h (by rw [tokens, tokensAt])
    (fun n => by rw [scopes, scopesAt, Nat.max_le, Nat.max_le]) ?_
  intro us hus hlen n fuel rest
  obtain ⟨o, us, rfl, ho, hus⟩ := kinds_eq_cons hus
  obtain ⟨us, vs, rfl, hfirst, hvs⟩ := kinds_eq_append hus
  obtain ⟨colon, vs, rfl, hcolon, hvs⟩ := kinds_eq_cons hvs
  obtain ⟨vs, c, rfl, hlast, hc⟩ := kinds_eq_concat hvs
  simp only [List.length_cons, List.length_append] at hlen
  rw [List.cons_append, List.append_assoc, List.cons_append, List.append_assoc]
  refine leads_subscript ho ?_
  rw [subscript]
  refine .step (atSymbol_bound hstart hfirst hcolon (.inl rfl) _) ?_
  refine leads_bound hstart' hfirst (by omega) hcolon (.inl rfl) ?_
  refine .step_true (takeSymbol?_of_kind hcolon) ?_
  refine .step (atSymbol_bound hstop hlast hc (.inr rfl) _) ?_
  refine (leads_bound hstop' hlast (by omega) hc (.inr rfl) ?_).congr (and_iff_left trivial)
  exact .step (expectSymbol_of_kind hc) (.refl _ _)

theorem readable_call {callee : Expr} {args : List Expr} {ps : List (String × Expr)}
    (hplain : Plain callee) (hargs : ∀ e ∈ args, Plain e) (hvalues : ∀ p ∈ ps, Plain p.2)
    (hnames : ∀ p ∈ ps, isKeyword p.1 = false) (hdistinct : (ps.map (·.1)).Nodup)
    (h : Readable r callee) (hargs' : ∀ e ∈ args, Readable r e)
    (hvalues' : ∀ p ∈ ps, Readable r p.2) : Readable r (.call callee args ps) := by
  refine readable_of_trailer (fun n => itemScopes args ≤ n ∧ keywordScopes ps ≤ n)
    (.call callee args ps hplain hargs hvalues hnames hdistinct) rfl h (by rw [tokens, tokensAt])
    (fun n => by rw [scopes, scopesAt, Nat.max_le, Nat.max_le]) ?_
  intro us hus hlen n fuel rest
  obtain ⟨o, us, rfl, ho, hus⟩ := kinds_eq_cons hus
  obtain ⟨us, c, rfl, hinner, hc⟩ := kinds_eq_concat hus
  simp only [List.length_cons, List.length_append] at hlen
  rw [trailers, List.cons_append, List.append_assoc]
  refine .step (p := peek) rfl ?_
  simp only [headKind, ho]
  refine .step (p := advance) rfl ?_
  have hread := leads_callArguments (r := r) (Level.ofBudget r n).expression hc rest args
    ps (fun e he => (hargs e he).begins.mono (Nat.zero_le _))
    (fun e he us hus hlen rest hrest => (hargs' e he).expression hus hlen hrest n)
    (fun p hp us hus hlen rest hrest => (hvalues' p hp).expression hus hlen hrest n)
    hnames hdistinct r.bound [] us hinner (by omega) (by omega)
  refine (hread.bind ?_).congr (and_iff_left trivial)
  exact .step (expectSymbol_of_kind hc) (.refl _ _)

/-! ### Operators -/

/-- A tree that joins two operands is readable if its rank is a chain and its token of that rank. -/
theorem readable_of_chain {left right e : Expr} {k : Rank} {t : TokenKind}
    (join : Expr → Expr → Expr) (he : e.Plain) (hrank : e.rank = k) (hk : k.isChain = true)
    (hjoin : k.joinOf? t = some join) (hje : join left right = e)
    (hstops : ∀ second j, k.tighter.tightness ≤ j.tightness → extendedBy t second j = false)
    (hleft : Readable r left) (hright : Readable r right)
    (htokens : e.tokens = left.tokensAt k ++ t :: right.tokensAt k.tighter)
    (hscopes : e.scopes = max (left.scopesAt k) (right.scopesAt k.tighter)) : Readable r e := by
  have hnested : k.isLeftNested = true := by simp [isLeftNested, hk]
  have hne : k ≠ .postfixed := by
    rintro rfl
    exact absurd hk (by decide)
  refine readable_of_bare he fun ts hts hlen n => ?_
  rw [htokens] at hts
  obtain ⟨ls, us, rfl, hls, hus⟩ := kinds_eq_append hts
  obtain ⟨u, vs, rfl, rfl, hvs⟩ := kinds_eq_cons hus
  simp only [List.length_append, List.length_cons] at hlen
  rw [hrank, hscopes]
  refine .of_grows hnested fun rest hrest => ?_
  obtain ⟨fuel, hfuel, hleads⟩ :=
    (hleft k ls hls (by omega) n).2 hnested (u :: vs ++ rest) (stops_cons hstops)
  obtain ⟨fuel, rfl⟩ : ∃ f, fuel = f + 1 := Nat.exists_eq_succ_of_ne_zero (by omega)
  refine ⟨fuel, by simp only [List.length_append, List.length_cons]; omega, ?_⟩
  have hoperand := (hright k.tighter vs hvs (by omega) n).1 rest hrest
  rw [List.append_assoc]
  refine (hleads.trans ?_).congr Nat.max_le.symm
  simp only [resume, if_neg hne, leftChain]
  refine .step (p := peek) rfl ?_
  simp only [List.cons_append, headKind, hjoin]
  refine .step (p := advance) rfl ?_
  rw [← hje]
  exact (hoperand.bind (.refl _ _)).congr (and_iff_left trivial)

theorem readable_logic {op : LogicOp} {left right : Expr} (hleft : Plain left)
    (hright : Plain right) (h : Readable r left) (h' : Readable r right) :
    Readable r (.logic op left right) := by
  refine readable_of_chain (k := op.rank) (t := .name op.word) (.logic op)
    (.logic op left right hleft hright) rfl ?_ ?_ rfl ?_ h h' (by rw [tokens, tokensAt, tokensAt])
    (by rw [scopes, scopesAt, scopesAt])
  · cases op <;> rfl
  · cases op <;> rfl
  · intro second j hj
    cases op <;> cases j <;> first | rfl | exact absurd hj (by decide)

/-- Nothing extends a signed expression that does not extend its power. -/
theorem stops_signed {rest : List Token} (h : Stops .power rest) : Stops .signed rest := by
  intro j hj
  by_cases hs : j = .signed
  · subst hs
    rfl
  · refine h j (Nat.lt_of_le_of_ne hj ?_)
    exact fun heq => hs (tightness_injective heq.symm)

/-- A power takes a signed exponent on the next level. -/
theorem readable_power {base exponent : Expr} (hbase : Plain base) (hexponent : Plain exponent)
    (h : Readable r base) (h' : Readable r exponent) : Readable r (.binary .pow base exponent) := by
  refine readable_of_bare (.binary .pow base exponent hbase hexponent) fun ts hts hlen n => ?_
  rw [tokens, ← tokensAt, ← tokensAt] at hts
  obtain ⟨ls, us, rfl, hls, hus⟩ := kinds_eq_append hts
  obtain ⟨u, vs, rfl, hu, hvs⟩ := kinds_eq_cons hus
  simp only [List.length_append, List.length_cons] at hlen
  refine .of_reads (fun rest hrest => ?_) rfl
  have hstops : Stops .postfixed (u :: (vs ++ rest)) := by
    refine stops_cons fun second j hj => ?_
    rw [hu]
    cases j <;> first | rfl | exact absurd hj (by decide)
  have hoperand := Leads.signed (fun n => (h' .signed vs hvs (by omega) n).1 rest
    (stops_signed hrest)) n
  rw [List.append_assoc, List.cons_append]
  refine (((h .postfixed ls hls (by omega) n).1 _ hstops).bind ?_).congr Nat.max_le.symm
  refine .step_true (takeSymbol?_of_kind hu) ?_
  exact (hoperand.bind (.refl _ _)).congr (and_iff_left trivial)

theorem readable_binary {op : BinaryOp} {left right : Expr} (hleft : Plain left)
    (hright : Plain right) (h : Readable r left) (h' : Readable r right) :
    Readable r (.binary op left right) := by
  by_cases hop : op = .pow
  · subst hop
    exact readable_power hleft hright h h'
  have hleftRank : op.leftRank = op.rank := by
    cases op <;> first | rfl | exact absurd rfl hop
  have hrightRank : op.rightRank = op.rank.tighter := by
    cases op <;> first | rfl | exact absurd rfl hop
  have hrightScopes : op.rightScopes = 0 := by
    cases op <;> first | rfl | exact absurd rfl hop
  refine readable_of_chain (k := op.rank) (t := .symbol op.symbol) (.binary op)
    (.binary op left right hleft hright) rfl ?_ ?_ rfl ?_ h h' ?_ ?_
  · cases op <;> first | rfl | exact absurd rfl hop
  · cases op <;> first | rfl | exact absurd rfl hop
  · intro second j hj
    cases op <;> cases j <;> first | rfl | exact absurd hj (by decide)
  · rw [tokens, hleftRank, hrightRank, tokensAt, tokensAt]
  · rw [scopes, hleftRank, hrightRank, hrightScopes, scopesAt, scopesAt, Nat.add_zero]

theorem takeWord?_of_kind {word : String} {t : Token} {ts : List Token} (h : t.kind = .name word) :
    takeWord? word (t :: ts) = .ok (true, ts) := by
  simp [takeWord?, headKind, isWord, h]

theorem expectWord_of_kind {word : String} {t : Token} {ts : List Token} (h : t.kind = .name word) :
    expectWord word (t :: ts) = .ok ((), ts) := by
  simp [expectWord, headKind, isWord, h]

theorem readable_unary {op : UnaryOp} {operand : Expr} (hoperand : Plain operand)
    (h : Readable r operand) : Readable r (.unary op operand) := by
  refine readable_of_bare (.unary op operand hoperand) fun ts hts hlen n => ?_
  rw [tokens, ← tokensAt] at hts
  obtain ⟨t, us, rfl, ht, hus⟩ := kinds_eq_cons hts
  rw [List.length_cons] at hlen
  have hrank : (unary op operand).rank.isLeftNested = false := by
    cases op <;> rfl
  refine .of_reads (fun rest hrest => ?_) hrank
  have hread (n : Nat) := (h op.rank us hus (by omega) n).1 rest hrest
  rw [scopes, ← scopesAt]
  have hsign (hop : signOf? t.kind = some op) (hr : op.rank = .signed) :
      Leads (Rank.signed.parser r (Level.ofBudget r n)) (pure (.unary op operand))
        (operand.scopesAt op.rank + 1 ≤ n) (t :: us ++ rest) rest := by
    refine .step (p := peek) rfl ?_
    simp only [List.cons_append, headKind, hop]
    refine .step (p := advance) rfl ?_
    have hinner := Leads.signed (fun n => hr ▸ hread n) n
    exact (hinner.bind (.refl _ _)).congr ((and_iff_left trivial).trans (by rw [hr]))
  cases op with
  | negate => exact hsign (by rw [ht]; rfl) rfl
  | plus => exact hsign (by rw [ht]; rfl) rfl
  | not =>
    refine .step_true (takeWord?_of_kind ht) ?_
    exact ((Leads.negation hread n).bind (.refl _ _)).congr (and_iff_left trivial)

theorem readable_compare {first : Expr} {links : List (Comparison × Expr)} (hfirst : Plain first)
    (hlinks : ∀ p ∈ links, Plain p.2) (hne : links ≠ []) (h : Readable r first)
    (h' : ∀ p ∈ links, Readable r p.2) : Readable r (.compare first links) := by
  refine readable_of_bare (.compare first links hfirst hlinks hne) fun ts hts hlen n => ?_
  rw [tokens, ← tokensAt] at hts
  obtain ⟨fs, us, rfl, hfs, hus⟩ := kinds_eq_append hts
  rw [List.length_append] at hlen
  refine .of_reads (fun rest hrest => ?_) rfl
  have hread := leads_comparisonLinks (r := r) (Grammar.sum r (Level.ofBudget r n)) hrest
    links (fun p hp => (hlinks p hp).begins_tokensAt .sum)
    (fun p hp ts hts hlen rest hrest => (h' p hp .sum ts hts hlen n).1 rest hrest)
    r.bound [] us hus (by omega) (by omega)
  have hstops : Stops .sum (us ++ rest) := stops_of_linkTokens hus hrest
  have hchain : (if links.isEmpty = true then first else .compare first links) =
      .compare first links :=
    if_neg (by simpa using hne)
  have hfinish : Leads (pure (if links.isEmpty = true then first else .compare first links))
      (pure (.compare first links)) True rest rest := by
    rw [hchain]
    exact .refl _ _
  rw [List.append_assoc]
  refine (((h .sum fs hfs (by omega) n).1 _ hstops).bind (hread.bind hfinish)).congr ?_
  rw [and_iff_left trivial, scopes, scopesAt, Nat.max_le]

/-- The words of a conditional extend no disjunction. -/
theorem stops_of_conditional_word {t : Token} {rest : List Token}
    (h : t.kind = .name "if" ∨ t.kind = .name "else") : Stops .disjunction (t :: rest) := by
  refine stops_cons fun second j hj => ?_
  rcases h with h | h <;> rw [h] <;>
    cases j <;> first | rfl | exact absurd hj (by decide)

theorem readable_conditional {test body otherwise : Expr} (htest : Plain test) (hbody : Plain body)
    (hotherwise : Plain otherwise) (h : Readable r test) (h' : Readable r body)
    (h'' : Readable r otherwise) : Readable r (.conditional test body otherwise) := by
  refine readable_of_bare (.conditional test body otherwise htest hbody hotherwise)
    fun ts hts hlen n => ?_
  rw [tokens, ← tokensAt, ← tokensAt] at hts
  obtain ⟨bs, us, rfl, hbs, hus⟩ := kinds_eq_append hts
  obtain ⟨i, vs, rfl, hi, hvs⟩ := kinds_eq_cons hus
  obtain ⟨cs, ws, rfl, hcs, hws⟩ := kinds_eq_append hvs
  obtain ⟨l, os, rfl, hl, hos⟩ := kinds_eq_cons hws
  simp only [List.length_append, List.length_cons] at hlen
  refine .of_reads (fun rest hrest => ?_) rfl
  have hreadBody := (h' .disjunction bs hbs (by omega) n).1 (i :: (cs ++ l :: (os ++ rest)))
    (stops_of_conditional_word (.inl hi))
  have hreadTest := (h .disjunction cs hcs (by omega) n).1 (l :: (os ++ rest))
    (stops_of_conditional_word (.inr hl))
  have hreadOtherwise := h''.expression hos (by omega) hrest n
  simp only [List.append_assoc, List.cons_append]
  refine (hreadBody.bind (.step_true (takeWord?_of_kind hi) (hreadTest.bind
    (.step (expectWord_of_kind hl) (hreadOtherwise.bind (.refl _ _)))))).congr ?_
  simp only [and_true, scopes, scopesAt, Nat.max_le]

/-! ### Whole expressions -/

theorem readable_none : Readable r .none := by
  refine readable_of_token .none rfl (by rw [tokens]) (by rw [scopes]) ?_
  intro next t rest ht _
  simp [Grammar.atom, headKind, ht, wordExpr?]

theorem readable_bool (b : Bool) : Readable r (.bool b) := by
  refine readable_of_token (.bool b) rfl (by rw [tokens]) (by rw [scopes]) ?_
  intro next t rest ht _
  cases b <;> simp [Grammar.atom, headKind, ht, wordExpr?]

theorem readable_int {i : Int64} (hi : 0 ≤ i) : Readable r (.int i) := by
  refine readable_of_token (.int i hi) rfl (by rw [tokens]) (by rw [scopes]) ?_
  intro next t rest ht _
  simp [Grammar.atom, headKind, ht]

/-- The tokens of a tree are read back at every place. -/
theorem Expr.Plain.readable {e : Expr} (he : e.Plain) : Readable r e := by
  induction he with
  | none => exact readable_none
  | bool b => exact readable_bool b
  | int i hi => exact readable_int hi
  | str s => exact readable_str s
  | name n hkeyword hliteral => exact readable_name hkeyword hliteral
  | list items hitems ih => exact readable_list hitems ih
  | dict entries hkeys hvalues ihkeys ihvalues => exact readable_dict hkeys hvalues ihkeys ihvalues
  | member target n htarget hn ih => exact readable_member htarget hn ih
  | index target i htarget hi ih ih' => exact readable_index htarget hi ih ih'
  | slice target start stop htarget hstart hstop ih ihstart ihstop =>
    exact readable_slice htarget hstart hstop ih ihstart ihstop
  | call callee args keywords hcallee hargs hvalues hnames hdistinct ih ihargs ihvalues =>
    exact readable_call hcallee hargs hvalues hnames hdistinct ih ihargs ihvalues
  | unary op operand hoperand ih => exact readable_unary hoperand ih
  | binary op left right hleft hright ih ih' => exact readable_binary hleft hright ih ih'
  | compare first links hfirst hlinks hne ih ihlinks =>
    exact readable_compare hfirst hlinks hne ih ihlinks
  | logic op left right hleft hright ih ih' => exact readable_logic hleft hright ih ih'
  | conditional test body otherwise htest hbody hotherwise ih ih' ih'' =>
    exact readable_conditional htest hbody hotherwise ih ih' ih''

theorem dropNewlines_append {ns : List Token} {n : Nat}
    (h : kinds ns = List.replicate n .newline) (ts : List Token) :
    dropNewlines (ns ++ ts) = dropNewlines ts := by
  induction ns generalizing n with
  | nil => rfl
  | cons t ns ih =>
    cases n with
    | zero => cases h
    | succ n =>
      obtain ⟨ht, hns⟩ := List.cons.inj h
      have hnewline : t.kind.isNewline = true := congrArg TokenKind.isNewline ht
      rw [List.cons_append, dropNewlines, if_pos hnewline, ih hns]

theorem dropNewlines_of_opens {k : Rank} {ts : List Token} (h : Opens k ts) :
    dropNewlines ts = ts := by
  obtain ⟨t, ts, rfl, ht⟩ := h
  rw [dropNewlines, if_neg]
  intro hnewline
  generalize t.kind = u at ht hnewline
  cases u with
  | newline => cases k <;> exact absurd ht (by decide)
  | _ => cases hnewline

/-- A line end or the end of the text extends no expression. -/
theorem stops_of_endsLine {k : Rank} {ts : List Token} (h : endsLine (headKind ts) = true) :
    Stops k ts := by
  intro j _
  generalize headKind ts = t at h ⊢
  cases t with
  | newline | finish => cases j <;> rfl
  | _ => cases h

/-- The parser of expressions, on the tokens that a tree is written as and line ends around them,
gives the tree if its tokens enter at most 200 levels at once. Otherwise the nesting is too deep. -/
theorem singleExpression_of_tokens (formatted : FormattedReader) {e : Expr} (he : e.Plain)
    (before after : Nat) {ts : List Token}
    (hts : kinds ts = List.replicate before .newline ++
      (e.tokens ++ (List.replicate after .newline ++ [.finish]))) :
    (e.scopes + 1 ≤ maxNesting →
      (singleExpression ⟨formatted, ts.length⟩).run' ts = .ok e) ∧
    (maxNesting < e.scopes + 1 →
      ∃ line, (singleExpression ⟨formatted, ts.length⟩).run' ts = .error ⟨.tooDeep, line⟩) := by
  obtain ⟨ns, us, hsplit, hns, hus⟩ := kinds_eq_append hts
  obtain ⟨es, vs, rfl, hes, hvs⟩ := kinds_eq_append hus
  obtain ⟨ms, f, rfl, hms, hf⟩ := kinds_eq_concat hvs
  have hbegins : Begins e.rank (kinds es) := hes ▸ he.begins
  have hends : endsLine (headKind (ms ++ [f])) = true := by
    cases ms with
    | nil => simp [headKind, hf, endsLine]
    | cons t ms =>
      have ht : t.kind = .newline := by
        refine List.eq_of_mem_replicate (n := after) ?_
        rw [← hms]
        exact List.mem_cons_self
      simp [headKind, ht, endsLine]
  have hlen : es.length ≤ ts.length := by
    rw [hsplit, List.length_append, List.length_append]
    omega
  have hexpression := (he.readable (r := ⟨formatted, ts.length⟩)).expression hes hlen
    (stops_of_endsLine hends) maxNesting
  have hfront : skipNewlines ts = .ok ((), es ++ (ms ++ [f])) := by
    rw [hsplit, skipNewlines, dropNewlines_append hns,
      dropNewlines_of_opens (hbegins.opens.append _)]
  have hback : skipNewlines (ms ++ [f]) = .ok ((), [f]) := by
    rw [skipNewlines, dropNewlines_append hms, dropNewlines, if_neg (by rw [hf]; decide)]
  have hend : expectFinish [f] = .ok ((), [f]) := by
    simp [expectFinish, headKind, hf]
  have hread : Leads (singleExpression ⟨formatted, ts.length⟩) (pure e)
      (e.scopes + 1 ≤ maxNesting) ts [f] := by
    refine .step hfront ((hexpression.bind ?_).congr (and_iff_left trivial))
    exact .step hback (.step hend (.refl _ _))
  constructor
  · intro hfits
    rw [StateT.run', hread.goesOn hfits]
    rfl
  · intro hdeep
    obtain ⟨line, hline⟩ := hread.tooDeep (by omega)
    refine ⟨line, ?_⟩
    rw [StateT.run', hline]
    rfl

/-- The tokens of `not (a or b) and x ** -2 not in f(key=y[:3])` are read back. -/
theorem singleExpression_of_conjunction :
    let ts : List Token := [.name "not", .symbol .openParen, .name "a", .name "or", .name "b",
      .symbol .closeParen, .name "and", .name "x", .symbol .power, .symbol .minus, .int 2,
      .name "not", .name "in", .name "f", .symbol .openParen, .name "key", .symbol .assign,
      .name "y", .symbol .openBracket, .symbol .colon, .int 3, .symbol .closeBracket,
      .symbol .closeParen, .newline, .finish].map (⟨·, 1⟩)
    (singleExpression ⟨fun _ _ => .ok .none, ts.length⟩).run' ts =
      .ok (.logic .and (.unary .not (.logic .or (.name "a") (.name "b")))
        (.compare (.binary .pow (.name "x") (.unary .negate (.int 2)))
          [(.notIn, .call (.name "f") []
            [("key", .slice (.name "y") Option.none (some (.int 3)))])])) := by
  have hname (n : String) (h : isKeyword n = false) (h' : n ∉ ["true", "false", "null"]) :=
    Plain.name n h h'
  refine (singleExpression_of_tokens _ ?_ 0 1 ?_).1 ?_
  · refine .logic _ _ _ (.unary _ _ (.logic _ _ _ (hname "a" rfl (by decide))
      (hname "b" rfl (by decide)))) (.compare _ _ ?_ ?_ (by simp))
    · exact .binary _ _ _ (hname "x" rfl (by decide)) (.unary _ _ (.int 2 (by decide)))
    · simp only [List.mem_singleton, forall_eq]
      refine .call _ _ _ (hname "f" rfl (by decide)) (by simp) ?_ (by decide) (by decide)
      simp only [List.mem_singleton, forall_eq]
      exact .slice _ _ _ (hname "y" rfl (by decide)) (by simp) (by simpa using .int 3 (by decide))
  · rfl
  · decide

end NoteShell.Grammar
