import NoteShell.Grammar.Program
import NoteShell.Proofs.Parsing.Remainder

/-!
# Expressions as programs

A source text that is an expression is also a program, whose only statement is that expression. The
other way round, a program whose only statement is an expression is an expression, unless a
semicolon ends the line. Both are shown on all token lists, whatever line ends and indentation they
hold.

## Main results

* `program_of_singleExpression` : an expression is a program of one statement.
* `singleExpression_of_program` : a program of one expression statement is an expression.
-/

namespace NoteShell.Grammar

open NoteShell.Grammar.Parser NoteShell.Grammar.Rank

variable {α β : Type} {r : Reading} {scope : Scope} {ts rest : List Token} {e : Expr}

/-! ### Which statements are expressions -/

/-- A statement is no expression. -/
def Stmt.NotExpr : Stmt → Prop
  | .expr _ => False
  | _ => True

/-- On success a parser gives what satisfies `P`. -/
def Parser.Gives (P : α → Prop) (p : Parser α) : Prop := ∀ ⦃ts a rest⦄, p ts = .ok (a, rest) → P a

theorem Parser.Gives.bind {P : β → Prop} {p : Parser α} {f : α → Parser β}
    (h : ∀ a, Gives P (f a)) : Gives P (p >>= f) := by
  intro ts b rest hok
  obtain ⟨a, mid, -, hb⟩ := bind_eq_ok hok
  exact h a hb

theorem gives_pure {P : α → Prop} {a : α} (h : P a) : Gives P (pure a) := by
  intro ts b rest hok
  cases hok
  exact h

theorem gives_ite {P : α → Prop} {c : Prop} [Decidable c] {p q : Parser α} (hp : Gives P p)
    (hq : Gives P q) : Gives P (if c then p else q) := by
  split_ifs
  · exact hp
  · exact hq

theorem branchRest_gives (body : BlockParser) (fuel : Nat) (acc : List (Expr × List Stmt)) :
    Gives Stmt.NotExpr (branchRest r scope body fuel acc) := by
  induction fuel generalizing acc with
  | zero => exact gives_pure trivial
  | succ fuel ih =>
    rw [branchRest]
    refine .bind fun ownerLine => .bind fun elif => gives_ite ?_ ?_
    · exact .bind fun test => .bind fun stmts => ih _
    · refine .bind fun otherwise => gives_ite ?_ (gives_pure trivial)
      exact .bind fun stmts => gives_pure trivial

theorem branchStatement_gives (body : BlockParser) :
    Gives Stmt.NotExpr (branchStatement r scope body) :=
  .bind fun _ => .bind fun _ => .bind fun _ => .bind fun _ => branchRest_gives body _ _

theorem whileStatement_gives (body : BlockParser) :
    Gives Stmt.NotExpr (whileStatement r scope body) :=
  .bind fun _ => .bind fun _ => .bind fun _ => .bind fun _ => gives_pure trivial

theorem forStatement_gives (body : BlockParser) :
    Gives Stmt.NotExpr (forStatement r scope body) :=
  .bind fun _ => .bind fun _ => .bind fun _ => .bind fun _ => .bind fun _ => .bind fun _ =>
    gives_pure trivial

theorem defineStatement_gives (body : BlockParser) :
    Gives Stmt.NotExpr (defineStatement r body) := by
  have hafter (n : String) (params : List Param) (ownerLine : Nat) :
      Gives Stmt.NotExpr
        (body ⟨false, true⟩ "def" ownerLine >>= fun stmts => pure (Stmt.define n params stmts)) :=
    .bind fun _ => gives_pure trivial
  refine .bind fun _ => .bind fun _ => .bind fun _ => .bind fun _ => .bind fun _ =>
    .bind fun _ => ?_
  exact .bind fun _ => gives_ite (.bind fun _ => hafter _ _ _) (hafter _ _ _)

/-- No expression follows an equal sign where no value is read. -/
theorem assigned_eq_nil {p : Parser Expr} {fuel : Nat} {acc : List Expr}
    (h : assigned p fuel acc ts = .ok ([], rest)) : acc = [] ∧ rest = ts := by
  induction fuel generalizing acc ts with
  | zero =>
    cases h
    exact ⟨rfl, rfl⟩
  | succ fuel ih =>
    rw [assigned] at h
    by_cases hassign : isSymbol .assign (headKind ts) = true
    · have htake : takeSymbol? .assign ts = .ok (true, ts.drop 1) := if_pos hassign
      rw [bind_of_ok htake] at h
      obtain ⟨x, mid, -, hrec⟩ := bind_eq_ok h
      exact absurd (ih hrec).1 (List.cons_ne_nil x acc)
    · rw [Bool.not_eq_true] at hassign
      rw [bind_of_ok (takeSymbol?_of_isSymbol_false hassign)] at h
      cases h
      exact ⟨rfl, rfl⟩

/-- An expression statement is an expression and nothing more. -/
theorem expression_of_expressionStatement (h : expressionStatement r ts = .ok (.expr e, rest)) :
    expression r ts = .ok (e, rest) := by
  obtain ⟨first, mid, hfirst, hmid⟩ := bind_eq_ok h
  rw [bind_of_ok (p := peek) rfl] at hmid
  cases hop : updateOf? (headKind mid) with
  | some op =>
    have hupdate : Gives Stmt.NotExpr (advance >>= fun _ =>
        toTarget .assign first >>= fun target => expression r >>= fun value =>
          pure (Stmt.update op target value)) :=
      .bind fun _ => .bind fun _ => .bind fun _ => gives_pure trivial
    rw [hop] at hmid
    cases hupdate hmid
  | none =>
    rw [hop] at hmid
    obtain ⟨values, after, hvalues, hafter⟩ := bind_eq_ok hmid
    cases values with
    | nil =>
      obtain ⟨-, rfl⟩ := assigned_eq_nil hvalues
      cases hafter
      exact hfirst
    | cons value others =>
      have hassign : Gives Stmt.NotExpr
          (toTargets .assign (first :: others.reverse) >>= fun targets =>
            pure (Stmt.assign targets value)) :=
        .bind fun _ => gives_pure trivial
      cases hassign hafter

/-- Before a line end an expression is a statement. -/
theorem expressionStatement_of_expression (h : expression r ts = .ok (e, rest))
    (hrest : endsLine (headKind rest) = true) :
    expressionStatement r ts = .ok (.expr e, rest) := by
  obtain ⟨hupdate, hassign⟩ :
      updateOf? (headKind rest) = none ∧ isSymbol .assign (headKind rest) = false := by
    generalize headKind rest = t at hrest
    cases t with
    | newline | finish => exact ⟨rfl, rfl⟩
    | _ => cases hrest
  have hassigned : assigned (expression r) r.bound [] rest = .ok ([], rest) := by
    cases r.bound with
    | zero => rfl
    | succ fuel =>
      rw [assigned, bind_of_ok (takeSymbol?_of_isSymbol_false hassign)]
      rfl
  rw [expressionStatement, bind_of_ok h, bind_of_ok (p := peek) rfl, hupdate]
  dsimp only
  rw [bind_of_ok hassigned]
  rfl

/-! ### Simple statements -/

/-- Where `p` gives `a`, the parser `q` gives `b` and leaves the same tokens. -/
def Agrees (p : Parser α) (a : α) (q : Parser β) (b : β) : Prop :=
  ∀ ⦃ts rest⦄, p ts = .ok (a, rest) → q ts = .ok (b, rest)

theorem agrees_of_gives {P : α → Prop} {p : Parser α} {a : α} {q : Parser β} {b : β}
    (hp : Gives P p) (ha : ¬ P a) : Agrees p a q b :=
  fun _ _ hok => absurd (hp hok) ha

theorem agrees_of_peek {f : TokenKind → Parser α} {a : α} {q : Parser β} {b : β}
    (h : ∀ t, Agrees (f t) a q b) : Agrees (peek >>= f) a q b :=
  fun ts _ hok => h (headKind ts) hok

/-- A simple statement that is an expression is read as one. -/
theorem simpleStatement_agrees :
    Agrees (simpleStatement r scope) (.expr e) (expression r) e := by
  have hlast {stmt : Stmt} (hs : stmt.NotExpr) :
      Gives Stmt.NotExpr (advance >>= fun _ => pure stmt) :=
    .bind fun _ => gives_pure hs
  have hvalue {f : Expr → Stmt} (hf : ∀ e, (f e).NotExpr) :
      Gives Stmt.NotExpr (expression r >>= fun value => pure (f value)) :=
    .bind fun _ => gives_pure (hf _)
  have hreturn : Gives Stmt.NotExpr (advance >>= fun _ => peek >>= fun t =>
      if endsStatement t = true then pure (Stmt.returnValue none)
      else expression r >>= fun value => pure (Stmt.returnValue (some value))) :=
    .bind fun _ => .bind fun _ => gives_ite (gives_pure trivial) (hvalue fun _ => trivial)
  rw [simpleStatement]
  refine agrees_of_peek fun t => ?_
  have hexpr : ¬ (Stmt.expr e).NotExpr := id
  split
  · exact agrees_of_gives (hlast trivial) hexpr
  · exact agrees_of_gives (gives_ite (.bind fun _ => hlast trivial) (hlast trivial)) hexpr
  · exact agrees_of_gives (gives_ite (.bind fun _ => hlast trivial) (hlast trivial)) hexpr
  · exact agrees_of_gives (gives_ite (.bind fun _ => hreturn) hreturn) hexpr
  · refine agrees_of_gives (.bind fun _ => .bind fun _ => ?_) hexpr
    exact gives_ite (.bind fun _ => hvalue fun _ => trivial) (hvalue fun _ => trivial)
  · exact agrees_of_gives (.bind fun _ => .bind fun _ => gives_pure trivial) hexpr
  · exact agrees_of_gives (.bind fun _ => .bind fun _ => gives_pure trivial) hexpr
  · exact fun ts rest hok => expression_of_expressionStatement hok

/-- Where an expression begins, a simple statement is an expression statement. -/
theorem simpleStatement_of_begunBy (h : begunBy (headKind ts) .conditional = true) :
    simpleStatement r scope ts = expressionStatement r ts := by
  rw [simpleStatement, bind_of_ok (p := peek) rfl]
  refine congrFun (?_ : _ = expressionStatement r) ts
  generalize headKind ts = t at h
  split
  case h_8 => rfl
  all_goals exact absurd h (by decide)

/-! ### Lines -/

theorem moreStatements_of_ne {item : Parser Stmt} (h : headKind ts ≠ .symbol .semicolon)
    (fuel : Nat) (acc : List Stmt) :
    moreStatements item fuel acc ts = .ok (acc.reverse, ts) := by
  cases fuel with
  | zero => rfl
  | succ fuel =>
    rw [moreStatements, bind_of_ok (takeSymbol?_of_isSymbol_false (isSymbol_eq_false h))]
    rfl

theorem moreStatements_gives {item : Parser Stmt} (fuel : Nat) (acc : List Stmt) :
    Gives (acc.reverse <+: ·) (moreStatements item fuel acc) := by
  induction fuel generalizing acc with
  | zero => exact gives_pure (List.prefix_refl _)
  | succ fuel ih =>
    rw [moreStatements]
    refine .bind fun _ => gives_ite (.bind fun _ => gives_ite ?_ (.bind fun s => ?_)) ?_
    · exact gives_pure (List.prefix_refl _)
    · intro ts stmts rest hok
      have hprefix := ih (s :: acc) hok
      rw [List.reverse_cons] at hprefix
      exact (List.prefix_append _ _).trans hprefix
    · exact gives_pure (List.prefix_refl _)

/-- A line begins with a simple statement, and after the last one it ends. -/
theorem simpleLine_eq_ok {stmts : List Stmt} (h : simpleLine r scope ts = .ok (stmts, rest)) :
    ∃ s mid after more, simpleStatement r scope ts = .ok (s, mid) ∧
      moreStatements (simpleStatement r scope) r.bound [s] mid = .ok (s :: more, after) ∧
      stmts = s :: more ∧
      (headKind after = .newline ∧ rest = after.drop 1 ∨
        (headKind after = .finish ∨ headKind after = .dedent) ∧ rest = after) := by
  obtain ⟨s, mid, hs, hmid⟩ := bind_eq_ok h
  obtain ⟨all, after, hall, hafter⟩ := bind_eq_ok hmid
  obtain ⟨more, rfl⟩ := moreStatements_gives r.bound [s] hall
  refine ⟨s, mid, after, more, hs, hall, ?_⟩
  rw [bind_of_ok (p := peek) rfl] at hafter
  cases hhead : headKind after with
  | newline =>
    rw [hhead] at hafter
    cases hafter
    exact ⟨rfl, .inl ⟨rfl, rfl⟩⟩
  | finish =>
    rw [hhead] at hafter
    cases hafter
    exact ⟨rfl, .inr ⟨.inl rfl, rfl⟩⟩
  | dedent =>
    rw [hhead] at hafter
    cases hafter
    exact ⟨rfl, .inr ⟨.inr rfl, rfl⟩⟩
  | _ =>
    rw [hhead] at hafter
    cases hafter

/-- A line holds at least one statement. -/
theorem simpleLine_gives : Gives (· ≠ []) (simpleLine r scope) := by
  intro ts stmts rest hok
  obtain ⟨s, -, -, more, -, -, rfl, -⟩ := simpleLine_eq_ok hok
  exact List.cons_ne_nil s more

theorem dropNewlines_drop (h : headKind ts = .newline) :
    dropNewlines (ts.drop 1) = dropNewlines ts := by
  cases ts with
  | nil => rfl
  | cons t ts =>
    have ht : t.kind.isNewline = true := congrArg TokenKind.isNewline h
    rw [List.drop_succ_cons, List.drop_zero, dropNewlines, if_pos ht]

/-- An expression that ends its line is the only statement of the line. -/
theorem simpleLine_of_expression (h : expression r ts = .ok (e, rest))
    (hrest : endsLine (headKind rest) = true) :
    ∃ after, simpleLine r scope ts = .ok ([.expr e], after) ∧
      dropNewlines after = dropNewlines rest := by
  obtain ⟨t, tail, rfl, hbegun, -⟩ := takes_expression r h
  have hhead : begunBy (headKind (t :: tail)) .conditional = true := hbegun
  have hstmt : simpleStatement r scope (t :: tail) = .ok (.expr e, rest) :=
    (simpleStatement_of_begunBy hhead).trans (expressionStatement_of_expression h hrest)
  have hne : headKind rest ≠ .symbol .semicolon := by
    intro heq
    rw [heq] at hrest
    cases hrest
  rw [simpleLine, bind_of_ok hstmt, bind_of_ok (moreStatements_of_ne hne _ _),
    bind_of_ok (p := peek) rfl]
  cases hhead : headKind rest with
  | newline => exact ⟨rest.drop 1, rfl, dropNewlines_drop hhead⟩
  | finish => exact ⟨rest, rfl, rfl⟩
  | _ =>
    rw [hhead] at hrest
    cases hrest

/-- A line whose only statement is an expression is read as one, if it holds no semicolon. -/
theorem expression_of_simpleLine (h : simpleLine r scope ts = .ok ([.expr e], rest))
    (hts : ∀ t ∈ ts, t.kind ≠ .symbol .semicolon) :
    ∃ mid, expression r ts = .ok (e, mid) ∧
      (headKind mid = .newline ∧ rest = mid.drop 1 ∨
        (headKind mid = .finish ∨ headKind mid = .dedent) ∧ rest = mid) := by
  obtain ⟨s, mid, after, more, hs, hmore, heq, hend⟩ := simpleLine_eq_ok h
  obtain ⟨rfl, rfl⟩ := List.cons.inj heq
  have hexpression := simpleStatement_agrees hs
  have hsuffix : mid <:+ ts := (takes_expression r).leaves hexpression
  have hne : headKind mid ≠ .symbol .semicolon := by
    cases mid with
    | nil => nofun
    | cons t mid => exact hts t (hsuffix.subset List.mem_cons_self)
  rw [moreStatements_of_ne hne] at hmore
  cases hmore
  exact ⟨mid, hexpression, hend⟩

/-- A statement holds at least one statement. -/
theorem statement_gives (depth : Nat) : Gives (· ≠ []) (statement r depth scope) := by
  cases depth with
  | zero => nofun
  | succ depth =>
    have hsingle {p : Parser Stmt} : Gives (· ≠ []) (p >>= fun s => pure [s]) :=
      .bind fun s => gives_pure (List.cons_ne_nil s [])
    rw [statement]
    refine .bind fun t => ?_
    split
    · nofun
    · nofun
    · exact hsingle
    · exact hsingle
    · exact hsingle
    · exact hsingle
    · exact simpleLine_gives

/-! ### Programs -/

/-- A statement that is one expression is a line of its own. -/
theorem statement_agrees {depth : Nat} : Agrees (statement r (depth + 1) scope) [.expr e]
    (simpleLine r scope) [.expr e] := by
  have hsingle {p : Parser Stmt} (hp : Gives Stmt.NotExpr p) :
      Gives (· ≠ [.expr e]) (p >>= fun s => pure [s]) := by
    intro ts stmts rest hok
    obtain ⟨s, mid, hs, hmid⟩ := bind_eq_ok hok
    cases hmid
    rintro heq
    obtain rfl : s = .expr e := by simpa using heq
    exact hp hs
  have hne : ¬ ([Stmt.expr e] ≠ [.expr e]) := fun h => h rfl
  rw [statement]
  refine agrees_of_peek fun t => ?_
  split
  · nofun
  · nofun
  · exact agrees_of_gives (hsingle (branchStatement_gives _)) hne
  · exact agrees_of_gives (hsingle (whileStatement_gives _)) hne
  · exact agrees_of_gives (hsingle (forStatement_gives _)) hne
  · exact agrees_of_gives (hsingle (defineStatement_gives _)) hne
  · exact fun ts rest hok => hok

/-- Where an expression begins, a statement is a line. -/
theorem statement_of_begunBy {depth : Nat} (h : begunBy (headKind ts) .conditional = true) :
    statement r (depth + 1) scope ts = simpleLine r scope ts := by
  rw [statement, bind_of_ok (p := peek) rfl]
  refine congrFun (?_ : _ = simpleLine r scope) ts
  generalize headKind ts = t at h
  split
  case h_7 => rfl
  all_goals exact absurd h (by decide)

theorem statements_of_finish {item : Parser (List Stmt)} (h : headKind ts = .finish) (fuel : Nat)
    (acc : List Stmt) : statements item fuel acc ts = .ok (acc.reverse, ts) := by
  cases fuel with
  | zero => rfl
  | succ fuel =>
    rw [statements, bind_of_ok (p := peek) rfl, h]
    rfl

/-- Before the end of the text, a round of the loop reads an item. -/
theorem statements_of_ne {item : Parser (List Stmt)} (h : headKind ts ≠ .finish) (fuel : Nat)
    (acc : List Stmt) :
    statements item (fuel + 1) acc ts =
      (item >>= fun stmts => skipNewlines >>= fun _ =>
        statements item fuel (stmts.reverseAux acc)) ts := by
  rw [statements, bind_of_ok (p := peek) rfl]
  cases hhead : headKind ts with
  | finish => exact absurd hhead h
  | _ => rfl

theorem statements_gives {item : Parser (List Stmt)} (fuel : Nat) (acc : List Stmt) :
    Gives (acc.reverse <+: ·) (statements item fuel acc) := by
  induction fuel generalizing acc with
  | zero => exact gives_pure (List.prefix_refl _)
  | succ fuel ih =>
    intro ts all rest hok
    by_cases hfinish : headKind ts = .finish
    · rw [statements_of_finish hfinish] at hok
      cases hok
      exact List.prefix_refl _
    · rw [statements_of_ne hfinish] at hok
      obtain ⟨stmts, mid, -, hmid⟩ := bind_eq_ok hok
      have hprefix := ih (stmts.reverseAux acc) hmid
      rw [List.reverseAux_eq, List.reverse_append, List.reverse_reverse] at hprefix
      exact (List.prefix_append _ _).trans hprefix

/-- A program of one statement is read in one round, after which the text ends. -/
theorem statements_eq_singleton {item : Parser (List Stmt)} (hitem : Gives (· ≠ []) item)
    {fuel : Nat} {s : Stmt} (h : statements item (fuel + 1) [] ts = .ok ([s], rest)) :
    ∃ mid, item ts = .ok ([s], mid) ∧ (fuel = 0 ∨ headKind (dropNewlines mid) = .finish) := by
  have hne : headKind ts ≠ .finish := by
    intro hfinish
    rw [statements_of_finish hfinish] at h
    cases h
  rw [statements_of_ne hne] at h
  obtain ⟨stmts, mid, hstmts, hmid⟩ := bind_eq_ok h
  have hmore : statements item fuel (stmts.reverseAux []) (dropNewlines mid) = .ok ([s], rest) :=
    hmid
  have hprefix := statements_gives fuel _ hmore
  rw [List.reverseAux_eq, List.append_nil, List.reverse_reverse] at hprefix
  have hstmtsNe := hitem hstmts
  have hsingle : stmts = [s] := by
    obtain ⟨more, hmore⟩ := hprefix
    obtain ⟨x, xs, rfl⟩ := List.exists_cons_of_ne_nil hstmtsNe
    obtain ⟨rfl, hnil⟩ := List.cons.inj hmore
    rw [(List.append_eq_nil_iff.mp hnil).1]
  subst hsingle
  refine ⟨mid, hstmts, ?_⟩
  cases fuel with
  | zero => exact .inl rfl
  | succ fuel =>
    refine .inr ?_
    by_contra hmidNe
    rw [statements_of_ne hmidNe] at hmore
    obtain ⟨next, after, hnext, hafter⟩ := bind_eq_ok hmore
    obtain ⟨more, heq⟩ := statements_gives fuel _ hafter
    obtain ⟨x, xs, rfl⟩ := List.exists_cons_of_ne_nil (hitem hnext)
    simp at heq

/-- An expression with line ends around it, up to the end of the text. -/
theorem singleExpression_eq_ok_iff : singleExpression r ts = .ok (e, rest) ↔
    ∃ mid, expression r (dropNewlines ts) = .ok (e, mid) ∧ rest = dropNewlines mid ∧
      headKind rest = .finish := by
  constructor
  · intro h
    obtain ⟨_, us, hus, hread⟩ := bind_eq_ok h
    obtain ⟨e', mid, hexpression, hmid⟩ := bind_eq_ok hread
    obtain ⟨_, vs, hvs, hfinish⟩ := bind_eq_ok hmid
    obtain ⟨_, ws, hws, hpure⟩ := bind_eq_ok hfinish
    cases hus
    cases hvs
    unfold expectFinish at hws
    split at hws
    · next hhead =>
      cases hws
      cases hpure
      exact ⟨mid, hexpression, rfl, hhead⟩
    · cases hws
  · rintro ⟨mid, hexpression, rfl, hhead⟩
    have hfinish : expectFinish (dropNewlines mid) = .ok ((), dropNewlines mid) := by
      rw [expectFinish, hhead]
    rw [singleExpression, bind_of_ok (p := skipNewlines) rfl, bind_of_ok hexpression,
      bind_of_ok (p := skipNewlines) rfl, bind_of_ok hfinish]
    rfl

/-- Before the end of the text only line ends can stand. -/
theorem endsLine_of_dropNewlines (h : headKind (dropNewlines ts) = .finish) :
    endsLine (headKind ts) = true := by
  cases ts with
  | nil => rfl
  | cons t ts =>
    rw [dropNewlines] at h
    split_ifs at h with hnewline
    · generalize ht : t.kind = k at hnewline
      cases k with
      | newline => simp [headKind, ht, endsLine]
      | _ => cases hnewline
    · have ht : t.kind = .finish := h
      simp [headKind, ht, endsLine]

/-- A token list that is an expression is a program of one statement. -/
theorem program_of_singleExpression (hbound : r.bound = ts.length)
    (h : singleExpression r ts = .ok (e, rest)) : program r ts = .ok ([.expr e], rest) := by
  obtain ⟨mid, hexpression, rfl, hfinish⟩ := singleExpression_eq_ok_iff.mp h
  obtain ⟨t, tail, hts, hbegun, -⟩ := takes_expression r hexpression
  have hhead : headKind (dropNewlines ts) = t.kind := congrArg headKind hts
  have hne : headKind (dropNewlines ts) ≠ .finish := by
    intro heq
    rw [← hhead, heq] at hbegun
    exact absurd hbegun (by decide)
  obtain ⟨fuel, hfuel⟩ : ∃ fuel, r.bound = fuel + 1 := by
    have hlen := (dropNewlines_suffix ts).length_le
    rw [hts, List.length_cons] at hlen
    exact Nat.exists_eq_succ_of_ne_zero (by omega)
  obtain ⟨after, hline, hafter⟩ : ∃ after,
      simpleLine r .top (dropNewlines ts) = .ok ([.expr e], after) ∧
        dropNewlines after = dropNewlines mid :=
    simpleLine_of_expression hexpression (endsLine_of_dropNewlines hfinish)
  have hstatement : statement r r.bound .top (dropNewlines ts) = .ok ([.expr e], after) := by
    rw [hfuel]
    exact (statement_of_begunBy (by rw [hhead]; exact hbegun)).trans hline
  rw [program, bind_of_ok (p := skipNewlines) rfl]
  rw [← hafter] at hfinish ⊢
  have hstatements : statements (statement r r.bound .top) (fuel + 1) [] (dropNewlines ts) = _ :=
    statements_of_ne hne fuel []
  rw [← hfuel] at hstatements
  rw [hstatements, bind_of_ok hstatement, bind_of_ok (p := skipNewlines) rfl,
    statements_of_finish hfinish]
  rfl

/-- A token list that is a program of one expression statement is an expression, if it holds no
semicolon. -/
theorem singleExpression_of_program (hbound : r.bound = ts.length)
    (hts : ∀ t ∈ ts, t.kind ≠ .symbol .semicolon) (h : program r ts = .ok ([.expr e], rest)) :
    ∃ rest', singleExpression r ts = .ok (e, rest') := by
  rw [program, bind_of_ok (p := skipNewlines) rfl] at h
  have hsuffix := dropNewlines_suffix ts
  cases hfuel : r.bound with
  | zero =>
    rw [hfuel] at h
    cases h
  | succ fuel =>
    rw [hfuel] at h
    obtain ⟨after, hstatement, hlast⟩ := statements_eq_singleton (statement_gives _) h
    obtain ⟨mid, hexpression, hend⟩ := expression_of_simpleLine (statement_agrees hstatement)
      fun t ht => hts t (hsuffix.subset ht)
    -- a text of one token has nothing left after its expression
    have hmid : fuel = 0 → mid = [] := by
      intro hzero
      obtain ⟨t, tail, heq, -, hrest⟩ := takes_expression r hexpression
      have hlen := hsuffix.length_le
      have hlen' := hrest.length_le
      rw [heq, List.length_cons] at hlen
      exact List.eq_nil_of_length_eq_zero (by omega)
    refine ⟨dropNewlines mid, singleExpression_eq_ok_iff.mpr ⟨mid, hexpression, rfl, ?_⟩⟩
    rcases hlast with hzero | hfinish
    · rw [hmid hzero]
      rfl
    · rcases hend with ⟨hnewline, rfl⟩ | ⟨-, rfl⟩
      · rwa [dropNewlines_drop hnewline] at hfinish
      · exact hfinish

end NoteShell.Grammar
