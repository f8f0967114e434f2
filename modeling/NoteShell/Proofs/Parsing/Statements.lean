import NoteShell.Proofs.Parsing.Derivation
import NoteShell.Proofs.Parsing.Placement

/-!
# Statements that parsers give

Statements are made of the expressions that are parsed in them, and built up in the scope in which
they are parsed. What holds of all expressions that the parser of expressions gives, and of all
their parts, therefore holds of all expressions in a program, and all its statements are well
placed.

## Main results

* `yields_statement` : the statements of a line or of a block.
* `yields_formed` : the statements of a program.
-/

namespace NoteShell.Grammar

open NoteShell.Grammar.Parser

variable {α : Type} {most : Nat} {r : Reading} {scope : Scope} {P : Expr → Prop}

/-- Several statements are built up in a scope. -/
def StmtsFormed (P : Expr → Prop) (scope : Scope) (stmts : List Stmt) : Prop :=
  ∀ s ∈ stmts, s.Formed P scope

/-- All expressions in a target satisfy `P`. -/
def Target.Holds (P : Expr → Prop) (target : Target) : Prop := ∀ e ∈ target.exprs, e.Holds P

theorem stmtsFormed_nil : StmtsFormed P scope [] := fun _ hs => absurd hs List.not_mem_nil

theorem StmtsFormed.reverse {stmts : List Stmt} (h : StmtsFormed P scope stmts) :
    StmtsFormed P scope stmts.reverse :=
  fun s hs => h s (List.mem_reverse.mp hs)

theorem StmtsFormed.reverseAux {stmts acc : List Stmt} (h : StmtsFormed P scope stmts)
    (hacc : StmtsFormed P scope acc) : StmtsFormed P scope (stmts.reverseAux acc) := by
  rw [List.reverseAux_eq]
  exact List.forall_mem_append.mpr ⟨h.reverse, hacc⟩

theorem Parser.Leaves.yields {p : Parser α} (h : Leaves p) : Yields most (fun _ => True) p :=
  fun _ _ _ hts hok => ⟨trivial, Nat.le_trans (weight_le_of_suffix (h hok)) hts⟩

theorem leaves_line : Leaves line := by
  intro ts a rest hok
  cases hok
  exact List.suffix_refl _

theorem leaves_skipNewlines : Leaves skipNewlines := by
  intro ts a rest hok
  cases hok
  exact dropNewlines_suffix ts

/-! ### Targets -/

theorem yields_toTarget (use : TargetUse) {e : Expr} (he : e.Holds P) :
    Yields most (Target.Holds P) (toTarget use e) := by
  have hchildren := (Expr.holds_iff.mp he).2
  rw [toTarget]
  cases e with
  | name n => exact yields_pure (by simp [Target.Holds, Target.exprs])
  | index container i => exact yields_pure hchildren
  | _ => exact yields_fail _

theorem yields_toTargets (use : TargetUse) {es : List Expr} (hes : ∀ e ∈ es, e.Holds P) :
    Yields most (fun targets => ∀ t ∈ targets, t.Holds P) (toTargets use es) := by
  induction es with
  | nil => exact yields_pure (by simp)
  | cons e es ih =>
    rw [List.forall_mem_cons] at hes
    exact (yields_toTarget use hes.1).bind fun target htarget =>
      (ih hes.2).bind fun targets htargets =>
        yields_pure (List.forall_mem_cons.mpr ⟨htarget, htargets⟩)

theorem yields_commaSeparated {Q : α → Prop} {item : Parser α} (h : Yields most Q item) (fuel : Nat)
    {acc : List α} (hacc : ∀ x ∈ acc, Q x) :
    Yields most (fun items => ∀ x ∈ items, Q x) (commaSeparated item fuel acc) := by
  induction fuel generalizing acc with
  | zero => exact yields_pure fun x hx => hacc x (List.mem_reverse.mp hx)
  | succ fuel ih =>
    refine h.bind fun x hx => ?_
    have hcons : ∀ y ∈ x :: acc, Q y := List.forall_mem_cons.mpr ⟨hx, hacc⟩
    exact (leaves_takeSymbol? _).then_yields fun _ =>
      yields_ite (ih hcons) (yields_pure fun y hy => hcons y (List.mem_reverse.mp hy))

/-! ### Simple statements -/

section

variable (hexpr : Yields most (Expr.Holds P) (expression r))

include hexpr

theorem yields_assigned (fuel : Nat) {acc : List Expr} (hacc : ∀ e ∈ acc, e.Holds P) :
    Yields most (fun es => ∀ e ∈ es, e.Holds P) (assigned (expression r) fuel acc) := by
  induction fuel generalizing acc with
  | zero => exact yields_pure hacc
  | succ fuel ih =>
    refine (leaves_takeSymbol? _).then_yields fun _ => yields_ite ?_ (yields_pure hacc)
    exact hexpr.bind fun e he => ih (List.forall_mem_cons.mpr ⟨he, hacc⟩)

theorem yields_expressionStatement :
    Yields most (Stmt.Formed P scope) (expressionStatement r) := by
  refine hexpr.bind fun first hfirst => leaves_peek.then_yields fun t => ?_
  cases updateOf? t with
  | some op =>
    refine leaves_advance.then_yields fun _ => (yields_toTarget _ hfirst).bind fun target ht => ?_
    exact hexpr.bind fun value hvalue => yields_pure
      (.simple rfl trivial (List.forall_mem_cons.mpr ⟨hvalue, ht⟩))
  | none =>
    refine (yields_assigned hexpr _ (by simp)).bind fun values hvalues => ?_
    cases values with
    | nil => exact yields_pure (.simple rfl trivial (List.forall_mem_singleton.mpr hfirst))
    | cons value others =>
      rw [List.forall_mem_cons] at hvalues
      have hall : ∀ e ∈ first :: others.reverse, e.Holds P :=
        List.forall_mem_cons.mpr ⟨hfirst, fun e he => hvalues.2 e (List.mem_reverse.mp he)⟩
      refine (yields_toTargets _ hall).bind fun targets htargets => yields_pure ?_
      refine .simple rfl trivial (List.forall_mem_cons.mpr ⟨hvalues.1, fun e he => ?_⟩)
      obtain ⟨target, htarget, he⟩ := List.mem_flatMap.mp he
      exact htargets target htarget e he

theorem yields_deleteTarget : Yields most (Target.Holds P) (deleteTarget r) :=
  hexpr.bind fun _ he => yields_toTarget _ he

theorem yields_simpleStatement :
    Yields most (Stmt.Formed P scope) (simpleStatement r scope) := by
  have hempty {s : Stmt} (hs : s.isSimple = true) (hallowed : s.Allowed scope)
      (hexprs : s.exprs = []) : s.Formed P scope :=
    .simple hs hallowed (by simp [hexprs])
  have hinside {allowed : Bool} (h : ¬ (!allowed) = true) : allowed = true := by simpa using h
  rw [simpleStatement]
  refine leaves_peek.then_yields fun t => ?_
  split
  · exact leaves_advance.then_yields fun _ => yields_pure (hempty rfl trivial rfl)
  · exact yields_unless fun h => leaves_advance.then_yields fun _ =>
      yields_pure (hempty rfl (hinside h) rfl)
  · exact yields_unless fun h => leaves_advance.then_yields fun _ =>
      yields_pure (hempty rfl (hinside h) rfl)
  · refine yields_unless fun h => leaves_advance.then_yields fun _ =>
      leaves_peek.then_yields fun _ => yields_ite (yields_pure (hempty rfl (hinside h) rfl)) ?_
    exact hexpr.bind fun value hvalue => yields_pure
      (.simple rfl (hinside h) (List.forall_mem_singleton.mpr hvalue))
  · refine leaves_advance.then_yields fun _ => leaves_peek.then_yields fun _ =>
      yields_unless fun _ => hexpr.bind fun value hvalue => yields_pure ?_
    exact .simple rfl trivial (List.forall_mem_singleton.mpr hvalue)
  · refine leaves_advance.then_yields fun _ =>
      (yields_commaSeparated (yields_deleteTarget hexpr) _ (by simp)).bind fun targets ht => ?_
    refine yields_pure (.simple rfl trivial fun e he => ?_)
    obtain ⟨target, htarget, he⟩ := List.mem_flatMap.mp he
    exact ht target htarget e he
  · refine leaves_advance.then_yields fun _ =>
      (yields_commaSeparated leaves_identifier.yields _ (by simp)).bind fun names _ => ?_
    exact yields_pure (hempty rfl trivial rfl)
  · exact yields_expressionStatement hexpr

/-! ### Lines and blocks -/

theorem yields_moreStatements (fuel : Nat) {acc : List Stmt} (hacc : StmtsFormed P scope acc) :
    Yields most (StmtsFormed P scope) (moreStatements (simpleStatement r scope) fuel acc) := by
  induction fuel generalizing acc with
  | zero => exact yields_pure hacc.reverse
  | succ fuel ih =>
    refine (leaves_takeSymbol? _).then_yields fun _ => yields_ite ?_ (yields_pure hacc.reverse)
    refine leaves_peek.then_yields fun _ => yields_ite (yields_pure hacc.reverse) ?_
    exact (yields_simpleStatement hexpr).bind fun s hs => ih (List.forall_mem_cons.mpr ⟨hs, hacc⟩)

theorem yields_simpleLine : Yields most (StmtsFormed P scope) (simpleLine r scope) := by
  refine (yields_simpleStatement hexpr).bind fun first hfirst => ?_
  refine (yields_moreStatements hexpr _ (List.forall_mem_singleton.mpr hfirst)).bind
    fun stmts hstmts => leaves_peek.then_yields fun t => ?_
  split
  · exact leaves_advance.then_yields fun _ => yields_pure hstmts
  · exact yields_pure hstmts
  · exact yields_pure hstmts
  · exact yields_failUnexpected

omit hexpr in
theorem yields_blockBody {item : Parser (List Stmt)} (h : Yields most (StmtsFormed P scope) item)
    (fuel : Nat) {acc : List Stmt} (hacc : StmtsFormed P scope acc) :
    Yields most (StmtsFormed P scope) (blockBody item fuel acc) := by
  induction fuel generalizing acc with
  | zero => exact yields_pure hacc.reverse
  | succ fuel ih =>
    refine leaves_skipNewlines.then_yields fun _ => leaves_peek.then_yields fun t => ?_
    split
    · exact leaves_advance.then_yields fun _ => yields_pure hacc.reverse
    · exact yields_pure hacc.reverse
    · exact h.bind fun stmts hstmts => ih (hstmts.reverseAux hacc)

theorem yields_block {item : Parser (List Stmt)} (h : Yields most (StmtsFormed P scope) item)
    (owner : String) (ownerLine : Nat) :
    Yields most (StmtsFormed P scope) (block r scope item owner ownerLine) := by
  refine (leaves_expectSymbol _).then_yields fun _ => leaves_peek.then_yields fun t => ?_
  split
  · refine leaves_skipNewlines.then_yields fun _ => leaves_peek.then_yields fun u => ?_
    split
    · exact leaves_advance.then_yields fun _ => yields_blockBody h _ stmtsFormed_nil
    · exact yields_fail _
  · exact yields_simpleLine hexpr

/-! ### Statements with blocks -/

variable {body : BlockParser} (hbody : ∀ scope owner ownerLine,
  Yields most (StmtsFormed P scope) (body scope owner ownerLine))

include hbody

theorem yields_branchRest (fuel : Nat) {acc : List (Expr × List Stmt)}
    (hacc : ∀ b ∈ acc, b.1.Holds P ∧ StmtsFormed P scope b.2) :
    Yields most (Stmt.Formed P scope) (branchRest r scope body fuel acc) := by
  have hbranch {acc : List (Expr × List Stmt)}
      (hacc : ∀ b ∈ acc, b.1.Holds P ∧ StmtsFormed P scope b.2) {otherwise : List Stmt}
      (h : StmtsFormed P scope otherwise) : (Stmt.branch acc.reverse otherwise).Formed P scope :=
    .branch (fun b hb => (hacc b (List.mem_reverse.mp hb)).1)
      (fun b hb => (hacc b (List.mem_reverse.mp hb)).2) h
  induction fuel generalizing acc with
  | zero => exact yields_pure (hbranch hacc stmtsFormed_nil)
  | succ fuel ih =>
    rw [branchRest]
    refine leaves_line.then_yields fun ownerLine => (leaves_takeWord? _).then_yields fun _ =>
      yields_ite ?_ ?_
    · refine hexpr.bind fun test htest => (hbody _ _ _).bind fun stmts hstmts => ?_
      exact ih (List.forall_mem_cons.mpr ⟨⟨htest, hstmts⟩, hacc⟩)
    · refine (leaves_takeWord? _).then_yields fun _ =>
        yields_ite ?_ (yields_pure (hbranch hacc stmtsFormed_nil))
      exact (hbody _ _ _).bind fun otherwise h => yields_pure (hbranch hacc h)

theorem yields_branchStatement :
    Yields most (Stmt.Formed P scope) (branchStatement r scope body) := by
  refine leaves_line.then_yields fun _ => (leaves_expectWord _).then_yields fun _ => ?_
  refine hexpr.bind fun test htest => (hbody _ _ _).bind fun stmts hstmts => ?_
  exact yields_branchRest hexpr hbody _ (List.forall_mem_singleton.mpr ⟨htest, hstmts⟩)

theorem yields_whileStatement :
    Yields most (Stmt.Formed P scope) (whileStatement r scope body) := by
  refine leaves_line.then_yields fun _ => (leaves_expectWord _).then_yields fun _ => ?_
  exact hexpr.bind fun test htest => (hbody _ _ _).bind fun stmts hstmts =>
    yields_pure (.whileLoop htest hstmts)

theorem yields_forStatement : Yields most (Stmt.Formed P scope) (forStatement r scope body) := by
  refine leaves_line.then_yields fun _ => (leaves_expectWord _).then_yields fun _ => ?_
  refine (yields_commaSeparated leaves_identifier.yields _ (by simp)).bind fun names _ => ?_
  refine (leaves_expectWord _).then_yields fun _ => ?_
  exact hexpr.bind fun iterable hi => (hbody _ _ _).bind fun stmts hstmts =>
    yields_pure (.forLoop hi hstmts)

omit hbody in
theorem yields_parameters (fuel : Nat) {acc : List Param}
    (hacc : ∀ p ∈ acc, ∀ e ∈ p.default?, e.Holds P) (hnames : (acc.map (·.name)).Nodup) :
    Yields most (fun params => (∀ p ∈ params, ∀ e ∈ p.default?, e.Holds P) ∧
      (params.map (·.name)).Nodup) (parameters r fuel acc) := by
  have hreverse {acc : List Param} (hacc : ∀ p ∈ acc, ∀ e ∈ p.default?, e.Holds P)
      (hnames : (acc.map (·.name)).Nodup) :
      (∀ p ∈ acc.reverse, ∀ e ∈ p.default?, e.Holds P) ∧ (acc.reverse.map (·.name)).Nodup := by
    rw [List.map_reverse, (List.reverse_perm _).nodup_iff]
    exact ⟨fun p hp => hacc p (List.mem_reverse.mp hp), hnames⟩
  have hdefault (acc : List Param) : Yields most (fun default? => ∀ e ∈ default?, e.Holds P)
      (parameters.defaultValue r acc) := by
    refine (leaves_takeSymbol? _).then_yields fun _ => yields_ite ?_ (yields_ite ?_ ?_)
    · exact hexpr.bind fun e he => yields_pure (by simpa using he)
    · exact yields_fail _
    · exact yields_pure (by simp)
  induction fuel generalizing acc with
  | zero => exact yields_pure (hreverse hacc hnames)
  | succ fuel ih =>
    rw [parameters]
    refine (leaves_atSymbol _).then_yields fun _ =>
      yields_ite (yields_pure (hreverse hacc hnames)) ?_
    refine leaves_identifier.then_yields fun n => yields_unless fun hnew => ?_
    refine (hdefault acc).bind fun default? hdefault? => ?_
    have hcons : ∀ p ∈ (⟨n, default?⟩ : Param) :: acc, ∀ e ∈ p.default?, e.Holds P :=
      List.forall_mem_cons.mpr ⟨hdefault?, hacc⟩
    have hnames' : (((⟨n, default?⟩ : Param) :: acc).map (·.name)).Nodup :=
      List.nodup_cons.mpr ⟨by simpa using hnew, hnames⟩
    exact (leaves_takeSymbol? _).then_yields fun _ =>
      yields_ite (ih hcons hnames') (yields_pure (hreverse hcons hnames'))

theorem yields_defineStatement : Yields most (Stmt.Formed P scope) (defineStatement r body) := by
  refine leaves_line.then_yields fun ownerLine => (leaves_expectWord _).then_yields fun _ => ?_
  refine leaves_identifier.then_yields fun n => (leaves_expectSymbol _).then_yields fun _ => ?_
  refine (yields_parameters hexpr _ (by simp) (by simp)).bind fun params hparams => ?_
  have hafter : Yields most (Stmt.Formed P scope)
      (body ⟨false, true⟩ "def" ownerLine >>= fun stmts => pure (Stmt.define n params stmts)) :=
    (hbody _ _ _).bind fun stmts hstmts => yields_pure (.define hparams.1 hparams.2 hstmts)
  refine (leaves_expectSymbol _).then_yields fun _ => (leaves_takeSymbol? _).then_yields fun _ => ?_
  exact yields_ite (hexpr.bind fun _ _ => hafter) hafter

end

/-- The statements of a line, or a statement with its blocks. -/
theorem yields_statement (hexpr : Yields most (Expr.Holds P) (expression r)) (depth : Nat) :
    Yields most (StmtsFormed P scope) (statement r depth scope) := by
  induction depth generalizing scope with
  | zero => exact yields_failUnexpected
  | succ depth ih =>
    have hbody (inner : Scope) (owner : String) (ownerLine : Nat) :
        Yields most (StmtsFormed P inner)
          (block r inner (statement r depth inner) owner ownerLine) :=
      yields_block hexpr ih owner ownerLine
    have hsingle {p : Parser Stmt} (hp : Yields most (Stmt.Formed P scope) p) :
        Yields most (StmtsFormed P scope) (p >>= fun s => pure [s]) :=
      hp.bind fun s hs => yields_pure (List.forall_mem_singleton.mpr hs)
    rw [statement]
    refine leaves_peek.then_yields fun t => ?_
    split
    · exact yields_fail _
    · exact yields_fail _
    · exact hsingle (yields_branchStatement hexpr hbody)
    · exact hsingle (yields_whileStatement hexpr hbody)
    · exact hsingle (yields_forStatement hexpr hbody)
    · exact hsingle (yields_defineStatement hexpr hbody)
    · exact yields_simpleLine hexpr

theorem yields_statements {item : Parser (List Stmt)} (h : Yields most (StmtsFormed P scope) item)
    (fuel : Nat) {acc : List Stmt} (hacc : StmtsFormed P scope acc) :
    Yields most (StmtsFormed P scope) (statements item fuel acc) := by
  induction fuel generalizing acc with
  | zero => exact yields_pure hacc.reverse
  | succ fuel ih =>
    refine leaves_peek.then_yields fun t => ?_
    split
    · exact yields_pure hacc.reverse
    · exact h.bind fun stmts hstmts => leaves_skipNewlines.then_yields fun _ =>
        ih (hstmts.reverseAux hacc)

/-- The statements of a program are built up at the outermost level. -/
theorem yields_formed (hexpr : Yields most (Expr.Holds P) (expression r)) :
    Yields most (StmtsFormed P .top) (program r) :=
  leaves_skipNewlines.then_yields fun _ =>
    yields_statements (yields_statement hexpr _) _ stmtsFormed_nil

/-- All expressions of a program satisfy `P`. -/
theorem yields_program (hexpr : Yields most (Expr.Holds P) (expression r)) :
    Yields most (fun stmts => ∀ s ∈ stmts, s.Holds P) (program r) :=
  (yields_formed hexpr).mono fun _ hstmts s hs => (hstmts s hs).holds

/-- A source text of a single expression. -/
theorem yields_singleExpression (hexpr : Yields most (Expr.Holds P) (expression r)) :
    Yields most (Expr.Holds P) (singleExpression r) := by
  refine leaves_skipNewlines.then_yields fun _ => hexpr.bind fun e he => ?_
  refine leaves_skipNewlines.then_yields fun _ => Leaves.then_yields ?_ fun _ => yields_pure he
  intro ts a rest hok
  rw [expectFinish] at hok
  split at hok <;> cases hok
  exact List.suffix_refl _

end NoteShell.Grammar
