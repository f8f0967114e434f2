import NoteShell.Proofs.Execution.Rounds
import NoteShell.Proofs.Parsing.Sources
import NoteShell.Proofs.Parsing.Statements

/-!
# Control flow stays inside

A statement ends normally or sends control away: out of a loop, on to its next round, or out of a
function. Statements that are built up in a scope send control only where the scope allows it, so
that loops and functions receive all of it, and a program as a whole ends normally.

## Main definitions

* `Execution.Ends` : what is known of the results with which steps can end.
* `Flow.Allowed` : the ways to end that a scope allows.

## Main results

* `ends_execBlock` : statements end in ways that their scope allows.
* `controlFlow_of_parseProgram` : control never leaves the statements of a parsed program.
-/

namespace NoteShell.Script

open NoteShell.Grammar NoteShell.Grammar.Parser

variable {α β : Type} {A : α → Prop} {B : β → Prop}

/-! ### How steps end -/

/-- A run of the steps ends with a result that satisfies `A`, if it ends without an error. -/
def Execution.Ends (A : α → Prop) (x : Execution α) : Prop :=
  ∀ ⦃env : Env⦄ ⦃call : Caller⦄ ⦃s t : State⦄ ⦃a : α⦄, x.run env call s = (.ok a, t) → A a

namespace Execution

theorem ends_pure {a : α} (ha : A a) : (pure a : Execution α).Ends A := by
  intro env call s t b hrun
  cases hrun
  exact ha

theorem ends_outOfRounds : (Execution.outOfRounds : Execution α).Ends A := nofun

theorem ends_fail (e : EvalError) : (liftM (Work.fail e : Work α) : Execution α).Ends A := nofun

theorem Ends.bind {x : Execution α} {f : α → Execution β} (hx : x.Ends A)
    (hf : ∀ a, A a → (f a).Ends B) : (x >>= f).Ends B := by
  intro env call s t b hrun
  rw [run_bind, Run.bind_apply] at hrun
  rcases h : x.run env call s with ⟨_ | a, u⟩ <;> rw [h] at hrun
  · cases hrun
  · exact hf a (hx h) hrun

/-- Steps of which nothing is needed, and then others. -/
theorem then_ends (x : Execution α) {f : α → Execution β} (hf : ∀ a, (f a).Ends B) :
    (x >>= f).Ends B :=
  Ends.bind (A := fun _ => True) (fun _ _ _ _ _ _ => trivial) fun a _ => hf a

end Execution

/-! ### Statements -/

/-- The ways to end that a scope allows. -/
def Flow.Allowed (scope : Scope) : Flow → Prop
  | .normal => True
  | .breakLoop | .continueLoop => scope.inLoop = true
  | .returned _ => scope.inFunction = true

/-- Outside of all loops and functions only the normal end is allowed. -/
theorem Flow.Allowed.eq_normal {flow : Flow} (h : flow.Allowed .top) : flow = .normal := by
  cases flow with
  | normal => rfl
  | _ => cases h

/-- The body of a function ends normally or returns. -/
theorem Flow.Allowed.normal_or_returned {flow : Flow} {scope : Scope}
    (h : flow.Allowed (scope.enter .function)) : flow = .normal ∨ ∃ v, flow = .returned v := by
  cases flow with
  | normal => exact .inl rfl
  | returned v => exact .inr ⟨v, rfl⟩
  | _ => cases h

/-- A loop receives what its body sends to it. -/
theorem Flow.Allowed.afterRound {flow next : Flow} {scope : Scope}
    (h : flow.Allowed (scope.enter .loop)) (hnext : flow.afterRound = some next) :
    next.Allowed scope := by
  cases flow with
  | normal | continueLoop => cases hnext
  | breakLoop =>
    cases hnext
    trivial
  | returned v =>
    cases hnext
    exact h

variable {env : Env} {scope : Scope} {P : Expr → Prop}

theorem ends_whileRounds {test : Execution Bool} {body : Execution Flow}
    (hbody : body.Ends (Flow.Allowed (scope.enter .loop))) (rounds : Nat) :
    (whileRounds test body rounds).Ends (Flow.Allowed scope) := by
  induction rounds with
  | zero => exact Execution.ends_outOfRounds
  | succ rounds ih =>
    rw [whileRounds]
    refine test.then_ends fun b => ?_
    split_ifs
    · refine hbody.bind fun flow hflow => ?_
      split
      · next next hnext => exact Execution.ends_pure (hflow.afterRound hnext)
      · exact ih
    · exact Execution.ends_pure trivial

theorem ends_forEach {bind : Value → Execution Unit} {body : Execution Flow}
    (hbody : body.Ends (Flow.Allowed (scope.enter .loop))) (items : List Value) :
    (forEach bind body items).Ends (Flow.Allowed scope) := by
  induction items with
  | nil => exact Execution.ends_pure trivial
  | cons v items ih =>
    rw [forEach]
    refine (bind v).then_ends fun _ => hbody.bind fun flow hflow => ?_
    split
    · next next hnext => exact Execution.ends_pure (hflow.afterRound hnext)
    · exact ih

/-- A statement ends in ways that its scope allows. -/
def EndsIn (env : Env) (scope : Scope) (s : Stmt) : Prop :=
  (execStmt env s).Ends (Flow.Allowed scope)

theorem ends_execBlock_of_forall {stmts : List Stmt} (h : ∀ s ∈ stmts, EndsIn env scope s) :
    (execBlock env stmts).Ends (Flow.Allowed scope) := by
  induction stmts with
  | nil => exact Execution.ends_pure trivial
  | cons s stmts ih =>
    rw [List.forall_mem_cons] at h
    rw [execBlock]
    refine h.1.bind fun flow hflow => ?_
    split
    · exact ih h.2
    · exact Execution.ends_pure hflow

theorem ends_execBranches {branches : List (Expr × List Stmt)} {otherwise : Execution Flow}
    (hbodies : ∀ b ∈ branches, ∀ s ∈ b.2, EndsIn env scope s)
    (hotherwise : otherwise.Ends (Flow.Allowed scope)) :
    (execBranches env otherwise branches).Ends (Flow.Allowed scope) := by
  induction branches with
  | nil => exact hotherwise
  | cons b branches ih =>
    rw [List.forall_mem_cons] at hbodies
    rw [execBranches]
    refine Execution.then_ends _ fun v => Execution.then_ends _ fun holds => ?_
    split_ifs
    · exact ends_execBlock_of_forall hbodies.1
    · exact ih hbodies.2

/-- A simple statement sends control nowhere else than it says. -/
theorem ends_simple {s : Stmt} (hs : s.isSimple = true) (hallowed : s.Allowed scope) :
    EndsIn env scope s := by
  have hnormal : (pure .normal : Execution Flow).Ends (Flow.Allowed scope) :=
    Execution.ends_pure trivial
  rw [EndsIn]
  cases s with
  | branch | whileLoop | forLoop | define => cases hs
  | breakLoop | continueLoop => exact Execution.ends_pure hallowed
  | returnValue e =>
    rw [execStmt]
    exact Execution.then_ends _ fun v => Execution.ends_pure hallowed
  | raise e =>
    rw [execStmt]
    exact Execution.then_ends _ fun v => Execution.then_ends _ fun text => Execution.ends_fail _
  | pass => exact hnormal
  | assign targets e =>
    rw [execStmt]
    exact Execution.then_ends _ fun v => Execution.then_ends _ fun _ => hnormal
  | expr | update | delete | declareGlobal =>
    rw [execStmt]
    exact Execution.then_ends _ fun _ => hnormal

/-- A statement that is built up in a scope ends in ways that the scope allows. -/
theorem ends_execStmt {s : Stmt} (h : s.Formed P scope) : EndsIn env scope s := by
  induction h with
  | simple hs hallowed _ => exact ends_simple hs hallowed
  | branch _ _ _ ihbodies ihotherwise =>
    rw [EndsIn, execStmt]
    exact ends_execBranches ihbodies (ends_execBlock_of_forall ihotherwise)
  | whileLoop _ _ ih =>
    rw [EndsIn, execStmt]
    exact ends_whileRounds (ends_execBlock_of_forall ih) env.rounds
  | forLoop _ _ ih =>
    rw [EndsIn, execStmt]
    refine Execution.then_ends _ fun v => Execution.then_ends _ fun items => ?_
    rw [forRounds_eq_forEach]
    exact ends_forEach (ends_execBlock_of_forall ih) items.toList
  | define _ _ _ _ =>
    rw [EndsIn, execStmt]
    refine Execution.then_ends _ fun params => Execution.then_ends _ fun f => ?_
    exact Execution.then_ends _ fun _ => Execution.ends_pure trivial

/-- Statements that are built up in a scope end in ways that the scope allows. -/
theorem ends_execBlock {stmts : List Stmt} (h : StmtsFormed P scope stmts) :
    (execBlock env stmts).Ends (Flow.Allowed scope) :=
  ends_execBlock_of_forall fun s hs => ends_execStmt (h s hs)

/-! ### Programs -/

/-- A program that is parsed is built up at the outermost level. -/
theorem formed_of_parseProgram {source : String} {stmts : List Stmt}
    (h : parseProgram source = .ok stmts) : StmtsFormed (fun _ => True) .top stmts := by
  obtain ⟨tokens, rest, -, hok⟩ := exists_tokens_of_parseProgram h
  have hexpr : Yields (weight tokens) (Expr.Holds fun _ => True)
      (expression ⟨readFormatted (readSource source.length), tokens.length⟩) :=
    (takes_expression _).leaves.yields.mono fun _ _ _ _ => trivial
  exact (yields_formed hexpr (Nat.le_refl _) hok).1

/-- In a program that is parsed, statements that leave a loop, go on with it or return stand where
they may. From any state the program ends normally, if it ends without an error, and the body of a
function that is defined in it ends normally or returns. -/
theorem controlFlow_of_parseProgram {source : String} {stmts : List Stmt}
    (h : parseProgram source = .ok stmts) :
    (∀ s ∈ stmts, ∀ path t, s.Encloses path t → t.WellPlaced path) ∧
    (∀ env call s flow t, (execBlock env stmts).run env call s = (.ok flow, t) → flow = .normal) ∧
    ∀ s ∈ stmts, ∀ path name params body, s.Encloses path (.define name params body) →
      ∀ env call t flow u, (execBlock env body).run env call t = (.ok flow, u) →
        flow = .normal ∨ ∃ v, flow = .returned v := by
  have hformed := formed_of_parseProgram h
  refine ⟨fun s hs path t ht => (hformed s hs).wellPlaced ht, ?_, ?_⟩
  · intro env call s flow t hrun
    exact (ends_execBlock hformed hrun).eq_normal
  · intro s hs path name params body hdefine env call t flow u hrun
    have hbody : StmtsFormed (fun _ => True) ((Scope.top.along path).enter .function) body := by
      cases (hformed s hs).along hdefine with
      | simple hsimple => cases hsimple
      | define _ _ hbody => exact hbody
    exact (ends_execBlock hbody hrun).normal_or_returned

/-- A program with a loop inside a function, which is left in two ways. -/
def leavingSource : String :=
  "def f(x):\n    while x:\n        if x:\n            return x\n        break\nf(1)\n"

/-- The body of the function in `leavingSource`. -/
def leavingBody : List Stmt :=
  [.whileLoop (.name "x") [.branch [(.name "x", [.returnValue (some (.name "x"))])] [], .breakLoop]]

/-- The names in a program of the form of `leavingSource`. -/
def leavingNames? : Except SourceError (List Stmt) → Option (List String)
  | .ok [.define f [⟨a, none⟩]
      [.whileLoop (.name b) [.branch [(.name c, [.returnValue (some (.name d))])] [], .breakLoop]],
      .expr (.call (.name g) [.int 1] [])] => some [f, a, b, c, d, g]
  | _ => none

/-- In `leavingSource` the loop is left inside the function, whose body ends normally or returns. -/
theorem controlFlow_of_parseProgram_leaving :
    ∃ stmts, parseProgram leavingSource = .ok stmts ∧
      Stmt.WellPlaced [.loop, .function] .breakLoop ∧
      (∀ env call s flow t, (execBlock env stmts).run env call s = (.ok flow, t) → flow = .normal) ∧
      ∀ env call t flow u, (execBlock env leavingBody).run env call t = (.ok flow, u) →
        flow = .normal ∨ ∃ v, flow = .returned v := by
  have hparse : parseProgram leavingSource =
      .ok [.define "f" [⟨"x", none⟩] leavingBody, .expr (.call (.name "f") [.int 1] [])] := by
    have hnames : leavingNames? (parseProgram leavingSource) =
        some ["f", "x", "x", "x", "x", "f"] := by decide +kernel
    generalize parseProgram leavingSource = result at hnames ⊢
    unfold leavingNames? at hnames
    split at hnames <;> cases hnames
    rfl
  obtain ⟨hplaced, hprogram, hbodies⟩ := controlFlow_of_parseProgram hparse
  have hbreak : (Stmt.define "f" [⟨"x", none⟩] leavingBody).Encloses
      [.loop, .function] .breakLoop :=
    .define List.mem_cons_self
      (.whileLoop (List.mem_cons_of_mem _ List.mem_cons_self) (.self .breakLoop))
  exact ⟨_, hparse, hplaced _ List.mem_cons_self _ _ hbreak, hprogram,
    hbodies _ List.mem_cons_self _ _ _ _ (.self _)⟩

end NoteShell.Script
