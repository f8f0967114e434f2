import NoteShell.Proofs.Lexing.Literal
import NoteShell.Proofs.Parsing.Fields
import NoteShell.Proofs.Parsing.RoundTrip
import NoteShell.Proofs.Parsing.Sources
import NoteShell.Proofs.Parsing.Statements

/-!
# How deep parsed trees are

A nesting level of the parser makes room for a few levels of a tree. The loops of the parser use no
nesting level: a chain of operators of one rank, or of calls, subscripts and attributes after one
value, makes a tree as deep as the chain is long. When a chain is counted as one level, the depth of
what is parsed is limited, whatever the length of the source text.

## Main definitions

* `Expr.depth` : the depth of a tree.
* `Expr.levels` : the depth where a chain that groups to the left is one level.

## Main results

* `Derived.levels_le` : the levels of a tree, from the nesting levels that it may use.
-/

namespace NoteShell.Grammar

open NoteShell.Grammar.Parser NoteShell.Grammar.Rank

namespace Expr

/-- The depth that the left operand of a tree of rank `k` gives it. With `flat` a left operand of
the same rank is on the same level, if the rank groups to the left. -/
def leftDepth (flat : Bool) (k : Rank) (left : Expr) (depth : Nat) : Nat :=
  if flat = true ∧ k.isLeftNested = true ∧ left.rank = k then depth else depth + 1

mutual

/-- The depth of a tree. With `flat` a chain that groups to the left is one level, and a formatted
text is a leaf, whose fields are trees of their own. -/
def depthWith (flat : Bool) : Expr → Nat
  | .none | .bool _ | .int _ | .float _ | .str _ | .name _ => 1
  | .formatted pieces => if flat = true then 1 else pieceDepths flat pieces + 1
  | .list items => itemDepths flat items + 1
  | .dict entries => entryDepths flat entries + 1
  | .member target _ => leftDepth flat .postfixed target (depthWith flat target)
  | .index target i =>
    max (leftDepth flat .postfixed target (depthWith flat target)) (depthWith flat i + 1)
  | .slice target start stop =>
    max (leftDepth flat .postfixed target (depthWith flat target))
      (max (boundDepth flat start) (boundDepth flat stop) + 1)
  | .call callee args keywords =>
    max (leftDepth flat .postfixed callee (depthWith flat callee))
      (max (itemDepths flat args) (keywordDepths flat keywords) + 1)
  | .unary _ operand => depthWith flat operand + 1
  | .binary op left right =>
    max (leftDepth flat op.rank left (depthWith flat left)) (depthWith flat right + 1)
  | .compare first links => max (depthWith flat first) (linkDepths flat links) + 1
  | .logic op left right =>
    max (leftDepth flat op.rank left (depthWith flat left)) (depthWith flat right + 1)
  | .conditional test body otherwise =>
    max (depthWith flat test) (max (depthWith flat body) (depthWith flat otherwise)) + 1

/-- The greatest depth of items. -/
def itemDepths (flat : Bool) : List Expr → Nat
  | [] => 0
  | e :: rest => max (depthWith flat e) (itemDepths flat rest)

/-- The greatest depth of dict entries. -/
def entryDepths (flat : Bool) : List (Expr × Expr) → Nat
  | [] => 0
  | (key, value) :: rest =>
    max (max (depthWith flat key) (depthWith flat value)) (entryDepths flat rest)

/-- The greatest depth of named arguments. -/
def keywordDepths (flat : Bool) : List (String × Expr) → Nat
  | [] => 0
  | (_, value) :: rest => max (depthWith flat value) (keywordDepths flat rest)

/-- The depth of a bound of a slice. -/
def boundDepth (flat : Bool) : Option Expr → Nat
  | .none => 0
  | .some e => depthWith flat e

/-- The greatest depth of the links of a comparison chain. -/
def linkDepths (flat : Bool) : List (Comparison × Expr) → Nat
  | [] => 0
  | (_, e) :: rest => max (depthWith flat e) (linkDepths flat rest)

/-- The greatest depth of the fields of a formatted text. -/
def pieceDepths (flat : Bool) : List Piece → Nat
  | [] => 0
  | .literal _ :: rest => pieceDepths flat rest
  | .field value _ _ :: rest => max (depthWith flat value) (pieceDepths flat rest)

end

/-- The depth of a tree. -/
def depth (e : Expr) : Nat := e.depthWith false

/-- The depth of a tree where a chain that groups to the left is one level, and a formatted text a
leaf. -/
def levels (e : Expr) : Nat := e.depthWith true

/-- The levels up to the left operand of a tree of rank `k`. -/
def leftLevels (k : Rank) (left : Expr) : Nat := leftDepth true k left left.levels

end Expr

/-- How many levels a tree of a rank may add to those of the expressions on the next nesting
level. -/
def Rank.height : Rank → Nat
  | conditional => 9
  | disjunction => 8
  | conjunction => 7
  | negation | comparison => 6
  | sum => 5
  | product => 4
  | signed | power => 3
  | postfixed => 2
  | atom => 1

/-- The greatest depth of a tree at a place, with `n` nesting levels left. -/
def Place.bound (n : Nat) : Place → Nat
  | .here k => 8 * n + k.height
  | .next _ => 8 * n + 1

theorem Rank.height_le (k : Rank) : k.height ≤ 9 := by cases k <;> decide

theorem Rank.height_tighter_le (k : Rank) : k.tighter.height ≤ k.height := by cases k <;> decide

theorem Rank.height_tighter_lt {k : Rank} (hk : k.isLeftNested = true) :
    k.tighter.height + 1 = k.height := by
  cases k <;> first | rfl | exact absurd hk (by decide)

theorem Expr.itemDepths_le_iff {flat : Bool} {items : List Expr} {n : Nat} :
    itemDepths flat items ≤ n ↔ ∀ e ∈ items, e.depthWith flat ≤ n := by
  induction items with
  | nil => simp [itemDepths]
  | cons e items ih => rw [List.forall_mem_cons, itemDepths, Nat.max_le, ih]

theorem Expr.entryDepths_le_iff {flat : Bool} {entries : List (Expr × Expr)} {n : Nat} :
    entryDepths flat entries ≤ n ↔
      ∀ p ∈ entries, p.1.depthWith flat ≤ n ∧ p.2.depthWith flat ≤ n := by
  induction entries with
  | nil => simp [entryDepths]
  | cons p entries ih => rw [List.forall_mem_cons, entryDepths, Nat.max_le, Nat.max_le, ih]

theorem Expr.keywordDepths_le_iff {flat : Bool} {keywords : List (String × Expr)} {n : Nat} :
    keywordDepths flat keywords ≤ n ↔ ∀ p ∈ keywords, p.2.depthWith flat ≤ n := by
  induction keywords with
  | nil => simp [keywordDepths]
  | cons p keywords ih => rw [List.forall_mem_cons, keywordDepths, Nat.max_le, ih]

theorem Expr.linkDepths_le_iff {flat : Bool} {links : List (Comparison × Expr)} {n : Nat} :
    linkDepths flat links ≤ n ↔ ∀ p ∈ links, p.2.depthWith flat ≤ n := by
  induction links with
  | nil => simp [linkDepths]
  | cons p links ih => rw [List.forall_mem_cons, linkDepths, Nat.max_le, ih]

theorem Expr.boundDepth_le_iff {flat : Bool} {bound : Option Expr} {n : Nat} :
    boundDepth flat bound ≤ n ↔ ∀ e ∈ bound, e.depthWith flat ≤ n := by
  cases bound <;> simp [boundDepth]

/-- What is known of the levels of a tree at a place: they are limited, also where the tree is the
left operand of a tree of the same rank. -/
structure FitsPlace (n : Nat) (place : Place) (e : Expr) : Prop where
  levels : e.levels ≤ place.bound n
  leftLevels : ∀ k, place = .here k → k.isLeftNested = true → e.leftLevels k ≤ place.bound n

variable {n : Nat} {k : Rank} {e : Expr}

theorem Expr.leftLevels_of_rank (hk : k.isLeftNested = true) (he : e.rank = k) :
    e.leftLevels k = e.levels :=
  if_pos ⟨rfl, hk, he⟩

theorem Expr.leftLevels_le (k : Rank) (e : Expr) : e.leftLevels k ≤ e.levels + 1 := by
  rw [leftLevels, leftDepth]
  split_ifs <;> omega

/-- A tree of its own rank. -/
theorem FitsPlace.of_rank (he : e.rank = k) (h : e.levels ≤ 8 * n + k.height) :
    FitsPlace n (.here k) e := by
  refine ⟨h, fun j hj hnested => ?_⟩
  cases hj
  rw [Expr.leftLevels_of_rank hnested he]
  exact h

/-- A tree at a rank that does not group to the left. -/
theorem FitsPlace.of_not_nested (hk : k.isLeftNested = false) (h : e.levels ≤ 8 * n + k.height) :
    FitsPlace n (.here k) e := by
  refine ⟨h, fun j hj hnested => ?_⟩
  cases hj
  exact absurd (hnested.symm.trans hk) (by decide)

/-- A looser rank has room for one more level, if it groups to the left. -/
theorem FitsPlace.looser (h : FitsPlace n (.here k.tighter) e) : FitsPlace n (.here k) e := by
  have hlevels : e.levels ≤ 8 * n + k.tighter.height := h.levels
  have hle := k.height_tighter_le
  refine ⟨?_, fun j hj hnested => ?_⟩
  · change e.levels ≤ 8 * n + k.height
    omega
  · cases hj
    have hlt := Rank.height_tighter_lt hnested
    have hleft := Expr.leftLevels_le k e
    change e.leftLevels k ≤ 8 * n + k.height
    omega

theorem FitsPlace.next_le (h : FitsPlace n (.next k) e) : e.levels ≤ 8 * n + 1 := h.levels

theorem FitsPlace.here_le (h : FitsPlace n (.here k) e) : e.levels ≤ 8 * n + k.height := h.levels

/-- The left operand of a tree of the same rank. -/
theorem FitsPlace.left_le (h : FitsPlace n (.here k) e) (hk : k.isLeftNested = true) :
    e.leftLevels k ≤ 8 * n + k.height :=
  h.leftLevels k rfl hk

/-- An operator of a chain, whose left operand may be a chain as well. -/
theorem FitsPlace.chain {left right : Expr} (he : e.rank = k) (hk : k.isLeftNested = true)
    (hlevels : e.levels = max (left.leftLevels k) (right.levels + 1))
    (hleft : FitsPlace n (.here k) left) (hright : FitsPlace n (.here k.tighter) right) :
    FitsPlace n (.here k) e := by
  have hle := hleft.left_le hk
  have hright_le := hright.here_le
  have hlt := Rank.height_tighter_lt hk
  refine .of_rank he ?_
  omega

/-- The levels of a derived tree, from the nesting levels that it may use. -/
theorem Derived.fitsPlace {leaf : Expr → Prop} {most : Nat} {place : Place}
    (hleaf : ∀ e, leaf e → e.levels ≤ 1) (h : Derived leaf most n place e) :
    FitsPlace n place e := by
  induction h with
  | @leaf n e he =>
    have hle := hleaf e he
    refine .of_not_nested rfl ?_
    rw [Rank.height]
    omega
  | looser _ ih => exact ih.looser
  | @enter n k e _ ih =>
    have hle := ih.here_le
    have hheight := k.height_le
    refine ⟨?_, nofun⟩
    rw [Place.bound]
    omega
  | @enclosed n e _ ih =>
    have hle := ih.next_le
    refine .of_not_nested rfl ?_
    rw [Rank.height]
    omega
  | @list n items _ _ ih =>
    have hle := Expr.itemDepths_le_iff.mpr fun e he => (ih e he).next_le
    refine .of_rank rfl ?_
    rw [Expr.levels, Expr.depthWith, Rank.height]
    omega
  | @dict n entries _ _ ihkeys ihvalues =>
    have hle := Expr.entryDepths_le_iff.mpr fun p hp =>
      ⟨(ihkeys p hp).next_le, (ihvalues p hp).next_le⟩
    refine .of_rank rfl ?_
    rw [Expr.levels, Expr.depthWith, Rank.height]
    omega
  | member name _ ih => exact .of_rank rfl (ih.left_le rfl)
  | index _ _ ih ihi =>
    have hi := ihi.next_le
    refine .of_rank rfl (Nat.max_le.mpr ⟨ih.left_le rfl, ?_⟩)
    rw [Rank.height]
    exact Nat.succ_le_succ hi
  | slice _ _ _ ih ihstart ihstop =>
    have hstart := Expr.boundDepth_le_iff.mpr fun e he => (ihstart e he).next_le
    have hstop := Expr.boundDepth_le_iff.mpr fun e he => (ihstop e he).next_le
    refine .of_rank rfl (Nat.max_le.mpr ⟨ih.left_le rfl, ?_⟩)
    rw [Rank.height]
    exact Nat.succ_le_succ (Nat.max_le.mpr ⟨hstart, hstop⟩)
  | call _ _ _ ih ihargs ihvalues =>
    have hargs := Expr.itemDepths_le_iff.mpr fun e he => (ihargs e he).next_le
    have hvalues := Expr.keywordDepths_le_iff.mpr fun p hp => (ihvalues p hp).next_le
    refine .of_rank rfl (Nat.max_le.mpr ⟨ih.left_le rfl, ?_⟩)
    rw [Rank.height]
    exact Nat.succ_le_succ (Nat.max_le.mpr ⟨hargs, hvalues⟩)
  | @unary n operand op _ ih =>
    have hle := ih.next_le
    have hlevels : (Expr.unary op operand).levels = operand.levels + 1 := rfl
    refine .of_rank rfl ?_
    cases op <;> rw [UnaryOp.rank, Rank.height] <;> omega
  | @power n base exponent _ _ ih ihexponent =>
    have hbase := ih.here_le
    have hexponent := ihexponent.next_le
    have hlevels : (Expr.binary .pow base exponent).levels =
        max (base.levels + 1) (exponent.levels + 1) := rfl
    refine .of_rank rfl ?_
    simp only [Rank.height] at hbase ⊢
    omega
  | binary op hop _ _ ih ih' => exact .chain rfl hop rfl ih ih'
  | logic op _ _ ih ih' => exact .chain rfl (by cases op <;> rfl) rfl ih ih'
  | @compare n first links _ _ ih ihlinks =>
    have hfirst := ih.here_le
    have hlinks := Expr.linkDepths_le_iff.mpr fun p hp => (ihlinks p hp).here_le
    have hlevels : (Expr.compare first links).levels =
        max first.levels (Expr.linkDepths true links) + 1 := rfl
    refine .of_rank rfl ?_
    simp only [Rank.height] at hfirst hlinks ⊢
    omega
  | @conditional n test body otherwise _ _ _ ih ih' ih'' =>
    have htest := ih.here_le
    have hbody := ih'.here_le
    have hotherwise := ih''.next_le
    have hlevels : (Expr.conditional test body otherwise).levels =
        max test.levels (max body.levels otherwise.levels) + 1 := rfl
    refine .of_rank rfl ?_
    simp only [Rank.height] at htest hbody ⊢
    omega

/-! ### Source texts -/

/-- A tree of all nesting levels, and the trees of the fields in it. -/
theorem Derived.holds_levels {leaf : Expr → Prop} {most : Nat}
    (hleaf : ∀ e, leaf e → e.levels ≤ 1 ∧ ∀ c ∈ e.children, c.Holds (·.levels ≤ 2000))
    (h : Derived leaf most maxNesting (.next .conditional) e) : e.Holds (·.levels ≤ 2000) := by
  refine h.forall_contains (Nat.le_refl _) (fun m place g hm hg => ?_) fun e he => (hleaf e he).2
  have hle := (hg.fitsPlace fun e he => (hleaf e he).1).levels
  have hbound : place.bound m ≤ 2000 := by
    rw [maxNesting] at hm
    cases place with
    | here k =>
      have hheight := k.height_le
      rw [Place.bound]
      omega
    | next k =>
      rw [Place.bound]
      omega
  omega

/-- A tree whose levels are limited in all its parts. -/
abbrev Expr.Bounded (e : Expr) : Prop := e.Holds (·.levels ≤ 2000)

/-- The expressions of a source text, where those of the fields in it are limited. -/
theorem yields_bounded (read : String → Except SourceError Expr)
    (hread : ∀ source e, read source = .ok e → e.Bounded) (most bound : Nat) :
    Yields most Expr.Bounded (expression ⟨readFormatted read, bound⟩) := by
  have hleaves : Reading.LeavesHold ⟨readFormatted read, bound⟩
      (fun e => e.levels ≤ 1 ∧ ∀ c ∈ e.children, c.Bounded) most := by
    have hplain {e : Expr} (hlevels : e.levels = 1) (hchildren : e.children = []) :
        e.levels ≤ 1 ∧ ∀ c ∈ e.children, c.Bounded :=
      ⟨Nat.le_of_eq hlevels, by simp [hchildren]⟩
    refine ⟨fun i => hplain rfl rfl, fun x => hplain rfl rfl, fun s _ => hplain rfl rfl, ?_, ?_⟩
    · intro word e hword
      rw [wordExpr?] at hword
      split_ifs at hword <;> cases hword <;> exact hplain rfl rfl
    · intro body line e hbody he
      obtain ⟨⟨pieces, rfl⟩, hchildren⟩ :=
        children_of_readFormatted (fun source e _ => hread source e) hbody he
      exact ⟨Nat.le_refl 1, hchildren⟩
  exact (derived_expression hleaves).mono fun e he => he.holds_levels fun e he => he

theorem bounded_of_readSource {depth : Nat} {source : String}
    (h : readSource depth source = .ok e) :
    e.Bounded := by
  induction depth generalizing source e with
  | zero => cases h
  | succ depth ih =>
    obtain ⟨tokens, rest, -, hok⟩ := exists_tokens_of_readSource h
    have hexpr := yields_bounded (readSource depth) (fun _ _ => ih) (weight tokens) tokens.length
    exact (yields_singleExpression hexpr (Nat.le_refl _) hok).1

/-! ### Chains of operators -/

/-- A sum of ones with `n` plus signs. -/
def onesSum : Nat → Expr
  | 0 => .int 1
  | n + 1 => .binary .add (onesSum n) (.int 1)

/-- A sum of ones as written, with `n` plus signs. -/
def onesText (n : Nat) : String := String.ofList ('1' :: (List.replicate n ['+', '1']).flatten)

theorem plain_onesSum (n : Nat) : (onesSum n).Plain := by
  induction n with
  | zero => exact .int 1 (by decide)
  | succ n ih => exact .binary .add _ _ ih (.int 1 (by decide))

theorem depth_onesSum (n : Nat) : (onesSum n).depth = n + 1 := by
  induction n with
  | zero => rfl
  | succ n ih =>
    have hsucc : (onesSum (n + 1)).depth = max ((onesSum n).depth + 1) 2 := rfl
    omega

/-- The left operand of a sum needs no parentheses. -/
theorem not_needsParens_onesSum (n : Nat) : ¬ Expr.needsParens .sum (onesSum n) := by
  cases n with
  | zero => exact of_decide_eq_false rfl
  | succ n => exact Nat.lt_irrefl _

theorem tokens_onesSum (n : Nat) : (onesSum n).tokens =
    .int 1 :: (List.replicate n [.symbol .plus, .int 1]).flatten := by
  induction n with
  | zero => rfl
  | succ n ih =>
    have hleft : Expr.enclose .sum (onesSum n) (onesSum n).tokens = (onesSum n).tokens :=
      if_neg (not_needsParens_onesSum n)
    have hsucc : (onesSum (n + 1)).tokens =
        Expr.enclose .sum (onesSum n) (onesSum n).tokens ++ [.symbol .plus, .int 1] := rfl
    rw [hsucc, hleft, ih, List.replicate_succ', List.flatten_append, List.flatten_singleton,
      List.cons_append]

theorem scopes_onesSum (n : Nat) : (onesSum n).scopes = 0 := by
  induction n with
  | zero => rfl
  | succ n ih =>
    have hleft : Expr.encloseScopes .sum (onesSum n) (onesSum n).scopes = (onesSum n).scopes :=
      if_neg (not_needsParens_onesSum n)
    have hsucc : (onesSum (n + 1)).scopes =
        max (Expr.encloseScopes .sum (onesSum n) (onesSum n).scopes) 0 := rfl
    rw [hsucc, hleft, ih, Nat.max_self]

theorem lexes_one {rest : List Char} (hrest : Delimits rest) : Lexes ['1'] [.int 1] rest :=
  lexes_natText (n := 1) rfl hrest

theorem lexes_ones (n : Nat) : Lexes (List.replicate n ['+', '1']).flatten
    (List.replicate n [.symbol .plus, .int 1]).flatten [] := by
  induction n with
  | zero => exact lexes_nil []
  | succ n ih =>
    have hrest : Delimits ((List.replicate n ['+', '1']).flatten ++ []) := by
      cases n with
      | zero => exact delimits_nil
      | succ n => exact delimits_cons (by decide) _
    exact (lexes_sign (.inr ⟨rfl, rfl⟩) (by decide) _).cons ((lexes_one hrest).cons ih)

/-- However long the sum is, it is accepted. -/
theorem parseExpression_onesText (n : Nat) : parseExpression (onesText n) = .ok (onesSum n) := by
  have hsource : (onesText n).toList = '1' :: (List.replicate n ['+', '1']).flatten :=
    String.toList_ofList
  have hlexes : Lexes (onesText n).toList (onesSum n).tokens [] := by
    rw [hsource, tokens_onesSum]
    refine (lexes_one ?_).cons (lexes_ones n)
    cases n with
    | zero => exact delimits_nil
    | succ n => exact delimits_cons (by decide) _
  obtain ⟨ks, hks⟩ : ∃ ks, (onesSum n).tokens = ks ++ [.int 1] := by
    cases n with
    | zero => exact ⟨[], rfl⟩
    | succ n =>
      refine ⟨.int 1 :: ((List.replicate n [.symbol .plus, .int 1]).flatten ++ [.symbol .plus]), ?_⟩
      rw [tokens_onesSum, List.replicate_succ']
      simp
  rw [hks] at hlexes
  obtain ⟨ts, htokens, hts⟩ := tokenize_of_lexes hsource (by decide) hlexes rfl
  rw [parseExpression_of_tokens htokens]
  refine (singleExpression_of_tokens _ (plain_onesSum n) 0 1 ?_).1 ?_
  · rw [hts, hks]
    rfl
  · rw [scopes_onesSum]
    decide

/-- Whatever its length, a source text that is accepted has only trees of at most 2000 levels, where
a chain that groups to the left counts as one level, and the fields of formatted texts as trees of
their own. -/
theorem levels_le_of_parse (source : String) :
    (∀ e, parseExpression source = .ok e → ∀ g, e.Contains g → g.levels ≤ 2000) ∧
      ∀ stmts, parseProgram source = .ok stmts → ∀ s ∈ stmts, ∀ g, s.Contains g →
        g.levels ≤ 2000 := by
  refine ⟨fun e h => bounded_of_readSource h, fun stmts h => ?_⟩
  obtain ⟨tokens, rest, -, hok⟩ := exists_tokens_of_parseProgram h
  have hexpr := yields_bounded (readSource source.length) (fun _ _ => bounded_of_readSource)
    (weight tokens) tokens.length
  exact (yields_program hexpr (Nat.le_refl _) hok).1

/-- A sum of 2001 ones is accepted both as an expression and as a program. -/
theorem levels_le_of_parse_sum :
    parseExpression (onesText 2000) = .ok (onesSum 2000) ∧
      parseProgram (onesText 2000) = .ok [.expr (onesSum 2000)] ∧
      (∀ g, (onesSum 2000).Contains g → g.levels ≤ 2000) ∧
      ∀ g, (Stmt.expr (onesSum 2000)).Contains g → g.levels ≤ 2000 := by
  have hexpression := parseExpression_onesText 2000
  have hprogram := parseProgram_of_parseExpression hexpression
  obtain ⟨hlevels, hlevels'⟩ := levels_le_of_parse (onesText 2000)
  exact ⟨hexpression, hprogram, hlevels _ hexpression, hlevels' _ hprogram _ List.mem_cons_self⟩

/-- Without counting chains as one level there is no such limit: the tree of a sum of 2001 ones is
deeper than 2000. -/
theorem depth_not_le_of_parse :
    ∃ e, parseExpression (onesText 2000) = .ok e ∧ e.depth = 2001 :=
  ⟨onesSum 2000, parseExpression_onesText 2000, depth_onesSum 2000⟩

end NoteShell.Grammar
