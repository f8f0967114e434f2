import NoteShell.Proofs.Lexing.Blocks
import NoteShell.Proofs.Parsing.Remainder

/-!
# Brackets and formatted texts in expressions

The tokens that an expression takes close all brackets that they open. All that the grammar is given
from outside is how formatted texts are read, so two readers that read those among the tokens alike
give the same expression. Both are seen on the same walk through the grammar: two parsers are
compared with each other on tokens that are read alike, and the brackets among the tokens taken are
counted.

## Main definitions

* `depthAfterAll` : the number of open brackets after some tokens, first one first.
* `Parser.Agree` : two parsers do the same, and close a number of brackets more than they open.

## Main results

* `agree_singleExpression` : exactly one expression, read with two readers.
-/

namespace NoteShell.Grammar

open NoteShell.Grammar.Parser NoteShell.Grammar.Rank

variable {α β : Type}

/-! ### Tokens taken -/

/-- The number of open brackets after some tokens, first one first. -/
def depthAfterAll (depth : Nat) (ts : List Token) : Nat :=
  ts.foldl (fun depth t => t.kind.depthAfter depth) depth

theorem depthAfterAll_append (depth : Nat) (ts us : List Token) :
    depthAfterAll depth (ts ++ us) = depthAfterAll (depthAfterAll depth ts) us :=
  List.foldl_append

theorem bracketDepth_reverse (ts : List Token) : bracketDepth ts.reverse = depthAfterAll 0 ts := by
  have hfold (us : List Token) : bracketDepth us = us.foldr (fun t d => t.kind.depthAfter d) 0 := by
    induction us with
    | nil => rfl
    | cons t us ih => rw [bracketDepth, ih, List.foldr_cons]
  rw [hfold, List.foldr_reverse, depthAfterAll]

/-- From `ts` to `rest` tokens are taken that close `k` brackets more than they open. -/
def Closing (k : Nat) (ts rest : List Token) : Prop :=
  ∃ used, ts = used ++ rest ∧ ∀ depth, depthAfterAll (depth + k) used = depth

variable {j k : Nat} {ts mid rest : List Token}

theorem Closing.refl (ts : List Token) : Closing 0 ts ts := ⟨[], rfl, fun _ => rfl⟩

theorem Closing.trans (h : Closing j ts mid) (h' : Closing k mid rest) :
    Closing (k + j) ts rest := by
  obtain ⟨used, rfl, hused⟩ := h
  obtain ⟨used', rfl, hused'⟩ := h'
  refine ⟨used ++ used', (List.append_assoc _ _ _).symm, fun depth => ?_⟩
  rw [depthAfterAll_append, ← Nat.add_assoc, hused, hused']

theorem Closing.suffix (h : Closing k ts rest) : rest <:+ ts := by
  obtain ⟨used, rfl, -⟩ := h
  exact List.suffix_append _ _

/-- The next token, if there is one, counts as all that is taken. -/
theorem closing_drop_one (h : ∀ depth, (headKind ts).depthAfter (depth + k) = depth) :
    Closing k ts (ts.drop 1) := by
  cases ts with
  | nil =>
    -- The end of the text closes nothing, so nothing is to be closed.
    have hk : 0 + k = 0 := h 0
    rw [Nat.zero_add] at hk
    exact hk ▸ Closing.refl []
  | cons t ts => exact ⟨[t], rfl, h⟩

/-! ### Parsers that agree -/

namespace Parser

/-- On tokens that are all read alike `p` and `q` do the same, and what they take closes `k`
brackets more than it opens. -/
def Agree (alike : Token → Prop) (k : Nat) (p q : Parser α) : Prop :=
  ∀ ⦃ts⦄, (∀ t ∈ ts, alike t) →
    p ts = q ts ∧ ∀ ⦃a rest⦄, p ts = .ok (a, rest) → Closing k ts rest

/-- The same on tokens of which the first is of the given kind. -/
def AgreeAt (alike : Token → Prop) (t : TokenKind) (k : Nat) (p q : Parser α) : Prop :=
  ∀ ⦃ts⦄, headKind ts = t → (∀ u ∈ ts, alike u) →
    p ts = q ts ∧ ∀ ⦃a rest⦄, p ts = .ok (a, rest) → Closing k ts rest

variable {alike : Token → Prop} {p q : Parser α} {f g : α → Parser β} {t : TokenKind}

theorem Agree.at (h : Agree alike k p q) : AgreeAt alike t k p q := fun _ _ hts => h hts

/-- A parser that is not given anything from outside. -/
theorem agree_self (h : ∀ ⦃ts a rest⦄, p ts = .ok (a, rest) → Closing k ts rest) :
    Agree alike k p p := fun _ _ => ⟨rfl, fun _ _ hok => h hok⟩

theorem Agree.bind (hp : Agree alike j p q) (hf : ∀ a, Agree alike k (f a) (g a)) :
    Agree alike (k + j) (p >>= f) (q >>= g) := by
  intro ts hts
  obtain ⟨heq, htake⟩ := hp hts
  cases hok : p ts with
  | error e =>
    rw [bind_of_error hok, bind_of_error (heq.symm.trans hok)]
    exact ⟨rfl, nofun⟩
  | ok result =>
    obtain ⟨a, mid⟩ := result
    have hmid := htake hok
    obtain ⟨heq', htake'⟩ := hf a fun t ht => hts t (hmid.suffix.mem ht)
    rw [bind_of_ok hok, bind_of_ok (heq.symm.trans hok)]
    exact ⟨heq', fun b rest hb => hmid.trans (htake' hb)⟩

theorem agree_pure (a : α) : Agree alike 0 (pure a) (pure a) := by
  refine agree_self fun ts b rest h => ?_
  cases h
  exact .refl ts

theorem agree_fail (k : Nat) (fault : Fault) : Agree alike k (fail fault : Parser α) (fail fault) :=
  agree_self nofun

theorem agree_failUnexpected (k : Nat) :
    Agree alike k (failUnexpected : Parser α) failUnexpected :=
  agree_self nofun

theorem Agree.map (hp : Agree alike 0 p q) (g : α → β) : Agree alike 0 (g <$> p) (g <$> q) :=
  hp.bind fun _ => agree_pure _

theorem agree_ite {c : Prop} [Decidable c] {p' q' : Parser α} (h : Agree alike k p q)
    (h' : Agree alike k p' q') : Agree alike k (if c then p else p') (if c then q else q') := by
  split_ifs
  · exact h
  · exact h'

/-- A check that may fail, before the rest of a parser. -/
theorem agree_unless {c : Prop} [Decidable c] {fault : Fault} {f g : Unit → Parser β}
    (h : ∀ u, Agree alike k (f u) (g u)) :
    Agree alike k (if c then fail fault >>= f else f ()) (if c then fail fault >>= g else g ()) :=
  agree_ite (fun _ _ => ⟨rfl, nofun⟩) (h ())

theorem agree_peek_bind {f g : TokenKind → Parser β} (h : ∀ t, AgreeAt alike t k (f t) (g t)) :
    Agree alike k (peek >>= f) (peek >>= g) := by
  intro ts hts
  rw [bind_of_ok (p := peek) rfl, bind_of_ok (p := peek) rfl]
  exact h _ rfl hts

/-- The next token is taken, whatever it is. -/
theorem agreeAt_advance {f g : Unit → Parser β} (ht : ∀ depth, t.depthAfter (depth + k) = depth + j)
    (h : ∀ u, Agree alike j (f u) (g u)) :
    AgreeAt alike t k (advance >>= f) (advance >>= g) := by
  intro ts hhead hts
  obtain ⟨heq, htake⟩ := h () fun u hu => hts u (List.mem_of_mem_drop hu)
  rw [bind_of_ok (p := advance) rfl, bind_of_ok (p := advance) rfl]
  refine ⟨heq, fun b rest hb => ?_⟩
  obtain ⟨used, hdrop, hused⟩ := htake hb
  cases ts with
  | nil =>
    obtain ⟨rfl, rfl⟩ := List.append_eq_nil_iff.mp hdrop.symm
    refine ⟨[], rfl, fun depth => ?_⟩
    have hfinish := ht depth
    rw [← hhead] at hfinish
    exact Eq.trans hfinish (hused depth)
  | cons u us =>
    refine ⟨u :: used, congrArg _ hdrop, fun depth => ?_⟩
    have hu : u.kind = t := hhead
    rw [depthAfterAll, List.foldl_cons, hu, ht]
    exact hused depth

/-! ### Single tokens -/

/-- A token that is no bracket. -/
def isPlain (t : TokenKind) : Bool := !t.opens && !t.closes

theorem depthAfter_of_isPlain (ht : isPlain t = true) (depth : Nat) :
    t.depthAfter depth = depth := by
  simp only [isPlain, Bool.and_eq_true, Bool.not_eq_true'] at ht
  exact TokenKind.depthAfter_of_neither ht.1 ht.2 depth

theorem isPlain_of_isWord {word : String} (h : isWord word t = true) : isPlain t = true := by
  cases t <;> first | rfl | cases h

theorem eq_of_isSymbol {s : Symbol} (h : isSymbol s t = true) : t = .symbol s := by
  cases t with
  | symbol s' => rw [LawfulBEq.eq_of_beq (a := s) (b := s') h]
  | _ => cases h

theorem agree_atSymbol (s : Symbol) : Agree alike 0 (atSymbol s) (atSymbol s) := by
  refine agree_self fun ts b rest h => ?_
  cases h
  exact .refl ts

theorem agree_takeSymbol? {s : Symbol} (hs : isPlain (.symbol s) = true) :
    Agree alike 0 (takeSymbol? s) (takeSymbol? s) := by
  refine agree_self fun ts b rest h => ?_
  unfold takeSymbol? at h
  split_ifs at h with hsymbol <;> cases h
  · exact closing_drop_one (eq_of_isSymbol hsymbol ▸ depthAfter_of_isPlain hs)
  · exact .refl ts

theorem agree_takeWord? (word : String) : Agree alike 0 (takeWord? word) (takeWord? word) := by
  refine agree_self fun ts b rest h => ?_
  unfold takeWord? at h
  split_ifs at h with hword <;> cases h
  · exact closing_drop_one (depthAfter_of_isPlain (isPlain_of_isWord hword))
  · exact .refl ts

theorem agree_expectWord (word : String) : Agree alike 0 (expectWord word) (expectWord word) := by
  refine agree_self fun ts b rest h => ?_
  unfold expectWord at h
  split_ifs at h with hword
  · cases h
    exact closing_drop_one (depthAfter_of_isPlain (isPlain_of_isWord hword))
  · cases h

theorem agree_expectSymbol {s : Symbol}
    (hs : ∀ depth, (TokenKind.symbol s).depthAfter (depth + k) = depth) :
    Agree alike k (expectSymbol s) (expectSymbol s) := by
  refine agree_self fun ts b rest h => ?_
  unfold expectSymbol at h
  split_ifs at h with hsymbol
  · cases h
    exact closing_drop_one (eq_of_isSymbol hsymbol ▸ hs)
  · cases h
  · cases h

theorem agree_expectClosing {s : Symbol} (hs : s.closes = true) :
    Agree alike 1 (expectSymbol s) (expectSymbol s) :=
  agree_expectSymbol fun _ => (TokenKind.depthAfter_of_closes (k := .symbol s) hs _).2

theorem agree_identifier : Agree alike 0 identifier identifier := by
  refine agree_self fun ts n rest h => ?_
  unfold identifier at h
  split at h
  · next hname =>
    split_ifs at h
    · cases h
    · cases h
      exact closing_drop_one fun depth => by rw [hname]; rfl
  · cases h

theorem agree_takeComparison? : Agree alike 0 takeComparison? takeComparison? := by
  refine agree_self fun ts op rest h => ?_
  unfold takeComparison? at h
  split at h
  · next op count hop =>
    cases h
    unfold comparisonOf? at hop
    split at hop
    case h_7 n hname =>
      have hfirst : Closing 0 ts (ts.drop 1) := closing_drop_one fun depth => by rw [hname]; rfl
      -- Two words are taken where the second one goes with the first.
      have hboth {word : String} (hword : isWord word (headKind (ts.drop 1)) = true) :
          Closing 0 ts (ts.drop 2) := by
        have hsecond : Closing 0 (ts.drop 1) ((ts.drop 1).drop 1) :=
          closing_drop_one (depthAfter_of_isPlain (isPlain_of_isWord hword))
        rw [List.drop_drop] at hsecond
        exact hfirst.trans hsecond
      split_ifs at hop with _ hnot _ hsame <;> cases hop
      · exact hfirst
      · exact hboth hnot.2
      · exact hboth hsame
      · exact hfirst
    case h_8 => cases hop
    all_goals
      next hsymbol =>
      cases hop
      exact closing_drop_one fun depth => by rw [hsymbol]; rfl
  · cases h
    exact .refl ts

theorem closing_dropNewlines (ts : List Token) : Closing 0 ts (dropNewlines ts) := by
  induction ts with
  | nil => exact .refl []
  | cons t ts ih =>
    rw [dropNewlines]
    split_ifs with hnewline
    · have hone : Closing 0 (t :: ts) ts := closing_drop_one fun depth => by
        rw [headKind, TokenKind.eq_newline hnewline]
        rfl
      exact hone.trans ih
    · exact .refl _

theorem agree_skipNewlines : Agree alike 0 skipNewlines skipNewlines := by
  refine agree_self fun ts u rest h => ?_
  cases h
  exact closing_dropNewlines ts

theorem agree_expectFinish : Agree alike 0 expectFinish expectFinish := by
  refine agree_self fun ts u rest h => ?_
  unfold expectFinish at h
  split at h <;> cases h
  exact .refl ts

end Parser

/-! ### Loops -/

variable {alike : Token → Prop} {p q : Parser Expr}

theorem agree_leftChain {join? : TokenKind → Option (Expr → Expr → Expr)}
    (hjoin : ∀ t, (join? t).isSome = true → isPlain t = true) (h : Agree alike 0 p q) (fuel : Nat)
    (e : Expr) : Agree alike 0 (leftChain p join? fuel e) (leftChain q join? fuel e) := by
  induction fuel generalizing e with
  | zero => exact agree_pure e
  | succ fuel ih =>
    refine agree_peek_bind fun t => ?_
    cases hop : join? t with
    | none => exact (agree_pure e).at
    | some join =>
      have ht := depthAfter_of_isPlain (hjoin t (by rw [hop]; rfl))
      exact agreeAt_advance (j := 0) ht fun _ => h.bind fun right => ih (join e right)

theorem agree_itemsUntil {close : Symbol} {item item' : Parser α} (h : Agree alike 0 item item')
    (fuel : Nat) (acc : List α) :
    Agree alike 0 (itemsUntil close item fuel acc) (itemsUntil close item' fuel acc) := by
  induction fuel generalizing acc with
  | zero => exact agree_pure _
  | succ fuel ih =>
    refine (agree_atSymbol _).bind fun _ => agree_ite (agree_pure _) (h.bind fun x => ?_)
    exact (agree_takeSymbol? rfl).bind fun _ => agree_ite (ih _) (agree_pure _)

theorem agree_comparisonLinks (h : Agree alike 0 p q) (fuel : Nat)
    (acc : List (Comparison × Expr)) :
    Agree alike 0 (comparisonLinks p fuel acc) (comparisonLinks q fuel acc) := by
  induction fuel generalizing acc with
  | zero => exact agree_pure _
  | succ fuel ih =>
    refine agree_takeComparison?.bind fun op => ?_
    cases op with
    | none => exact agree_pure _
    | some op => exact h.bind fun right => ih _

theorem agree_positional (h : Agree alike 0 p q) (args : List Expr)
    (keywords : List (String × Expr)) :
    Agree alike 0 (callArguments.positional p args keywords)
      (callArguments.positional q args keywords) := by
  rw [callArguments.positional, callArguments.positional]
  exact agree_unless fun _ => h.bind fun _ => agree_pure _

theorem agree_argument (h : Agree alike 0 p q) (args : List Expr)
    (keywords : List (String × Expr)) :
    Agree alike 0 (callArguments.argument p args keywords)
      (callArguments.argument q args keywords) := by
  have hvalue (n : String) : Agree alike 0
      (if (keywords.any fun k => k.1 == n) = true then
        fail (.repeatedKeyword n) >>= fun _ => p >>= fun value =>
          pure (args, (n, value) :: keywords)
      else p >>= fun value => pure (args, (n, value) :: keywords))
      (if (keywords.any fun k => k.1 == n) = true then
        fail (.repeatedKeyword n) >>= fun _ => q >>= fun value =>
          pure (args, (n, value) :: keywords)
      else q >>= fun value => pure (args, (n, value) :: keywords)) :=
    agree_unless fun _ => h.bind fun _ => agree_pure _
  intro ts hts
  unfold callArguments.argument
  rw [bind_of_ok (p := peek) rfl, bind_of_ok (p := peek) rfl, bind_of_ok (p := peekSecond) rfl,
    bind_of_ok (p := peekSecond) rfl]
  cases hname : headKind ts with
  | name n =>
    cases hassign : isSymbol .assign (headKind (ts.drop 1)) with
    | false => exact agree_positional h args keywords hts
    | true =>
      dsimp only
      by_cases hkeyword : isKeyword n = true
      · rw [if_pos hkeyword, if_pos hkeyword]
        exact agree_positional h args keywords hts
      · rw [if_neg hkeyword, if_neg hkeyword]
        -- The name and the sign after it are taken.
        have hfirst : Closing 0 ts (ts.drop 1) := closing_drop_one fun depth => by rw [hname]; rfl
        have hsecond : Closing 0 (ts.drop 1) ((ts.drop 1).drop 1) := closing_drop_one fun depth => by
          rw [eq_of_isSymbol hassign]
          rfl
        have hboth := hfirst.trans hsecond
        obtain ⟨heq, htake⟩ := hvalue n fun t ht => hts t (hboth.suffix.mem ht)
        exact ⟨heq, fun b rest hb => hboth.trans (htake hb)⟩
  | _ => exact agree_positional h args keywords hts

theorem agree_callArguments (h : Agree alike 0 p q) (fuel : Nat) (args : List Expr)
    (keywords : List (String × Expr)) :
    Agree alike 0 (callArguments p fuel args keywords) (callArguments q fuel args keywords) := by
  induction fuel generalizing args keywords with
  | zero => exact agree_pure _
  | succ fuel ih =>
    refine (agree_atSymbol _).bind fun _ => agree_ite (agree_pure _) ?_
    refine (agree_argument h args keywords).bind fun result => ?_
    exact (agree_takeSymbol? rfl).bind fun _ => agree_ite (ih _ _) (agree_pure _)

/-! ### Brackets -/

theorem agree_parenthesized (h : Agree alike 0 p q) :
    Agree alike 1 (parenthesized p) (parenthesized q) := by
  refine h.bind fun inner => (agree_atSymbol _).bind fun _ => ?_
  exact agree_unless fun _ => (agree_expectClosing rfl).bind fun _ => agree_pure _

theorem agree_listItems {r r' : Reading} (hbound : r.bound = r'.bound) (h : Agree alike 0 p q) :
    Agree alike 1 (listItems r p) (listItems r' q) := by
  rw [listItems, listItems, hbound]
  exact (agree_itemsUntil h _ _).bind fun _ => (agree_expectClosing rfl).bind fun _ => agree_pure _

theorem agree_dictEntries {r r' : Reading} (hbound : r.bound = r'.bound) (h : Agree alike 0 p q) :
    Agree alike 1 (dictEntries r p) (dictEntries r' q) := by
  have hentry : Agree alike 0 (dictEntry p) (dictEntry q) :=
    h.bind fun _ => (agree_expectSymbol (k := 0) fun _ => rfl).bind fun _ =>
      h.bind fun _ => agree_pure _
  rw [dictEntries, dictEntries, hbound]
  exact (agree_itemsUntil hentry _ _).bind fun _ => (agree_expectClosing rfl).bind fun _ =>
    agree_pure _

theorem agree_subscript (h : Agree alike 0 p q) (target : Expr) :
    Agree alike 1 (subscript p target) (subscript q target) := by
  have hlimit {f g : Option Expr → Parser Expr} (hf : ∀ limit, Agree alike 1 (f limit) (g limit))
      (absent : Bool) :
      Agree alike 1 (if absent = true then pure Option.none >>= f else some <$> p >>= f)
        (if absent = true then pure Option.none >>= g else some <$> q >>= g) :=
    agree_ite ((agree_pure _).bind hf) ((h.map _).bind hf)
  have hclose : Agree alike 1 (expectSymbol .closeBracket) (expectSymbol .closeBracket) :=
    agree_expectClosing rfl
  refine (agree_atSymbol _).bind fun absent => hlimit (fun start => ?_) absent
  refine (agree_takeSymbol? rfl).bind fun _ => agree_ite ?_ ?_
  · refine (agree_atSymbol _).bind fun absent => hlimit (fun stop => ?_) absent
    exact hclose.bind fun _ => agree_pure _
  · refine hclose.bind fun _ => ?_
    cases start with
    | none => exact agree_failUnexpected 0
    | some i => exact agree_pure _

/-! ### Levels -/

/-- The parsers of two levels agree. -/
structure Level.Agree (alike : Token → Prop) (next next' : Level) : Prop where
  expression : Parser.Agree alike 0 next.expression next'.expression
  negation : Parser.Agree alike 0 next.negation next'.negation
  signed : Parser.Agree alike 0 next.signed next'.signed
  bracket : ∀ body body', (∀ p q, Parser.Agree alike 0 p q → Parser.Agree alike 1 (body p) (body' q)) →
    Parser.Agree alike 1 (next.bracket body) (next'.bracket body')

/-- Two readings differ in formatted texts only, and read those that are alike in the same way. -/
structure Reading.Agree (alike : Token → Prop) (r r' : Reading) : Prop where
  bound : r.bound = r'.bound
  formatted : ∀ t, alike t → ∀ body, t.kind = .formatted body →
    r.formatted body t.line = r'.formatted body t.line

variable {r r' : Reading} {next next' : Level} {k : Rank}

theorem agree_trailers (hr : r.Agree alike r') (hnext : next.Agree alike next') (fuel : Nat)
    (e : Expr) : Agree alike 0 (trailers r next fuel e) (trailers r' next' fuel e) := by
  induction fuel generalizing e with
  | zero => exact agree_pure e
  | succ fuel ih =>
    refine agree_peek_bind fun t => ?_
    dsimp only
    split
    · refine agreeAt_advance (j := 1) (fun _ => rfl) fun _ => ?_
      rw [hr.bound]
      refine (agree_callArguments hnext.expression _ _ _).bind fun _ => ?_
      exact (agree_expectClosing rfl).bind fun _ => ih _
    · refine agreeAt_advance (j := 1) (fun _ => rfl) fun _ => ?_
      exact (agree_subscript hnext.expression _).bind fun _ => ih _
    · refine agreeAt_advance (j := 0) (fun _ => rfl) fun _ => ?_
      exact agree_identifier.bind fun _ => ih _
    · exact (agree_pure e).at

theorem closing_adjacentTexts (ts : List Token) : Closing 0 ts (adjacentTexts ts).2 := by
  induction ts with
  | nil => exact .refl []
  | cons t ts ih =>
    rw [adjacentTexts]
    split
    · next hstr =>
      have hone : Closing 0 (t :: ts) ts :=
        closing_drop_one fun depth => by rw [headKind, hstr]; rfl
      exact hone.trans ih
    · exact .refl _

theorem agree_atom (hr : r.Agree alike r') (hnext : next.Agree alike next') :
    Agree alike 0 (Grammar.atom r next) (Grammar.atom r' next') := by
  intro ts hts
  have htail : ∀ t ∈ ts.drop 1, alike t := fun t ht => hts t (List.mem_of_mem_drop ht)
  have hplain {t : TokenKind} (ht : headKind ts = t) (hplain : isPlain t = true) :
      Closing 0 ts (ts.drop 1) := closing_drop_one (ht ▸ depthAfter_of_isPlain hplain)
  have hbracket {s : Symbol} (hs : headKind ts = .symbol s) (hopens : s.opens = true)
      (body body' : Parser Expr → Parser Expr)
      (h : ∀ p q, Agree alike 0 p q → Agree alike 1 (body p) (body' q)) :
      next.bracket body (ts.drop 1) = next'.bracket body' (ts.drop 1) ∧
        ∀ ⦃e rest⦄, next.bracket body (ts.drop 1) = .ok (e, rest) → Closing 0 ts rest :=
    agreeAt_advance (k := 0) (j := 1)
      (fun depth => (TokenKind.depthAfter_of_opens (k := .symbol s) hopens depth).2)
      (fun _ => hnext.bracket body body' h) hs hts
  unfold Grammar.atom
  split
  · next h => exact ⟨rfl, fun e rest hok => by cases hok; exact hplain h rfl⟩
  · next h => exact ⟨rfl, fun e rest hok => by cases hok; exact hplain h rfl⟩
  · next h =>
    refine ⟨rfl, fun e rest hok => ?_⟩
    cases hok
    exact (hplain h rfl).trans (closing_adjacentTexts _)
  · next body h =>
    obtain ⟨t, tail, rfl, ht⟩ := eq_cons_of_headKind (h ▸ nofun : headKind ts ≠ .finish)
    have hbody := hr.formatted t (hts t List.mem_cons_self) body (ht.symm.trans h)
    rw [headLine, ← hbody]
    refine ⟨rfl, fun e rest hok => ?_⟩
    split at hok <;> cases hok
    exact hplain h rfl
  · next word h =>
    refine ⟨rfl, fun e rest hok => ?_⟩
    split at hok <;> cases hok
    exact hplain h rfl
  · next h => exact hbracket h rfl _ _ fun p q => agree_parenthesized
  · next h => exact hbracket h rfl _ _ fun p q => agree_listItems hr.bound
  · next h => exact hbracket h rfl _ _ fun p q => agree_dictEntries hr.bound
  · exact ⟨rfl, nofun⟩

theorem isPlain_of_joinOf? {k : Rank} (t : TokenKind) (h : (k.joinOf? t).isSome = true) :
    isPlain t = true := by
  cases t with
  | symbol s => cases k <;> cases s <;> first | rfl | cases h
  | _ => rfl

theorem agree_resume (hr : r.Agree alike r') (hnext : next.Agree alike next')
    (h : Agree alike 0 (k.tighter.parser r next) (k.tighter.parser r' next')) (e : Expr) :
    Agree alike 0 (k.resume r next r.bound e) (k.resume r' next' r'.bound e) := by
  unfold resume
  rw [hr.bound]
  split_ifs
  · exact agree_trailers hr hnext _ e
  · exact agree_leftChain isPlain_of_joinOf? h _ e

/-- A rank agrees if the next tighter one does. -/
theorem Parser.Agree.looser (hr : r.Agree alike r') (hnext : next.Agree alike next')
    (h : Agree alike 0 (k.tighter.parser r next) (k.tighter.parser r' next')) :
    Agree alike 0 (k.parser r next) (k.parser r' next') := by
  by_cases hnested : k.isLeftNested = true
  · rw [parser_of_isLeftNested hnested, parser_of_isLeftNested hnested]
    exact h.bind fun e => agree_resume hr hnext h e
  cases k with
  | disjunction | conjunction | sum | product | postfixed => exact absurd rfl hnested
  | atom => exact h
  | conditional =>
    refine h.bind fun body => (agree_takeWord? _).bind fun _ => agree_ite ?_ (agree_pure _)
    refine h.bind fun test => (agree_expectWord _).bind fun _ => ?_
    exact hnext.expression.bind fun _ => agree_pure _
  | negation =>
    refine (agree_takeWord? _).bind fun _ => agree_ite ?_ h
    exact hnext.negation.bind fun _ => agree_pure _
  | comparison =>
    refine h.bind fun first => ?_
    have hlinks := agree_comparisonLinks h r.bound []
    rw [hr.bound] at hlinks ⊢
    exact hlinks.bind fun _ => agree_pure _
  | signed =>
    refine agree_peek_bind fun t => ?_
    cases hsign : signOf? t with
    | none => exact h.at
    | some op =>
      have hplain : isPlain t = true := by
        cases t with
        | symbol s => cases s <;> first | rfl | cases hsign
        | _ => rfl
      exact agreeAt_advance (j := 0) (depthAfter_of_isPlain hplain) fun _ =>
        hnext.signed.bind fun _ => agree_pure _
  | power =>
    refine h.bind fun base => (agree_takeSymbol? rfl).bind fun _ => agree_ite ?_ (agree_pure _)
    exact hnext.signed.bind fun _ => agree_pure _

theorem Rank.agree_of_rank (hr : r.Agree alike r') (hnext : next.Agree alike next') (k : Rank) :
    Agree alike 0 (k.parser r next) (k.parser r' next') := by
  have hatom : Agree alike 0 (Rank.atom.parser r next) (Rank.atom.parser r' next') :=
    agree_atom hr hnext
  have hpostfixed := Agree.looser (k := .postfixed) hr hnext hatom
  have hpower := Agree.looser (k := .power) hr hnext hpostfixed
  have hsigned := Agree.looser (k := .signed) hr hnext hpower
  have hproduct := Agree.looser (k := .product) hr hnext hsigned
  have hsum := Agree.looser (k := .sum) hr hnext hproduct
  have hcomparison := Agree.looser (k := .comparison) hr hnext hsum
  have hnegation := Agree.looser (k := .negation) hr hnext hcomparison
  have hconjunction := Agree.looser (k := .conjunction) hr hnext hnegation
  have hdisjunction := Agree.looser (k := .disjunction) hr hnext hconjunction
  have hconditional := Agree.looser (k := .conditional) hr hnext hdisjunction
  cases k <;> assumption

theorem Level.agree_ofBudget (hr : r.Agree alike r') (budget : Nat) :
    (Level.ofBudget r budget).Agree alike (Level.ofBudget r' budget) := by
  induction budget with
  | zero =>
    exact ⟨agree_fail 0 _, agree_fail 0 _, agree_fail 0 _, fun _ _ _ => agree_fail 1 _⟩
  | succ budget ih =>
    exact
      { expression := agree_of_rank hr ih .conditional
        negation := agree_of_rank hr ih .negation
        signed := agree_of_rank hr ih .signed
        bracket := fun body body' h => h _ _ ih.expression }

/-- Exactly one expression is the same for two readers that read its formatted texts alike, and its
tokens close all brackets that they open. -/
theorem agree_singleExpression (hr : r.Agree alike r') :
    Agree alike 0 (singleExpression r) (singleExpression r') := by
  have hexpression : Agree alike 0 (expression r) (expression r') :=
    (Level.agree_ofBudget hr maxNesting).expression
  refine agree_skipNewlines.bind fun _ => hexpression.bind fun e => ?_
  exact agree_skipNewlines.bind fun _ => agree_expectFinish.bind fun _ => agree_pure e

end NoteShell.Grammar
