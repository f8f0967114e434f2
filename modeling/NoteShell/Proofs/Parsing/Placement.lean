import NoteShell.Grammar.Program
import NoteShell.Proofs.Parsing.Parts

/-!
# Where statements stand

A statement stands in the loops and function definitions around it, and these decide whether it may
leave a loop or return from a function. The rules by which statements are built up carry a scope
along that says no more than this.

## Main definitions

* `Stmt.Encloses` : a statement stands in another one, with the loops and definitions in between.
* `Stmt.WellPlaced` : where the statements may stand that leave a loop or return from a function.
* `Stmt.Formed` : the statements that can be built up in a scope.

## Main results

* `Stmt.Formed.wellPlaced` : what stands in a statement that is built up is well placed.
-/

namespace NoteShell.Grammar

/-- A construct that decides where control may go. -/
inductive Enclosure where
  | loop
  | function
deriving DecidableEq

/-- The scope inside a construct. A function hides the loops around it. -/
def Scope.enter (scope : Scope) : Enclosure → Scope
  | .loop => { scope with inLoop := true }
  | .function => ⟨false, true⟩

/-- A statement stands in another one, or is the other one. The path consists of the loops and
function definitions in between, the innermost one first. -/
inductive Stmt.Encloses : Stmt → List Enclosure → Stmt → Prop
  | self (s) : Encloses s [] s
  | branch {branches otherwise b s path t} (hb : b ∈ branches) (hs : s ∈ b.2)
      (h : Encloses s path t) : Encloses (.branch branches otherwise) path t
  | otherwise {branches otherwise s path t} (hs : s ∈ otherwise) (h : Encloses s path t) :
      Encloses (.branch branches otherwise) path t
  | whileLoop {test body s path t} (hs : s ∈ body) (h : Encloses s path t) :
      Encloses (.whileLoop test body) (path ++ [.loop]) t
  | forLoop {names iterable body s path t} (hs : s ∈ body) (h : Encloses s path t) :
      Encloses (.forLoop names iterable body) (path ++ [.loop]) t
  | define {name params body s path t} (hs : s ∈ body) (h : Encloses s path t) :
      Encloses (.define name params body) (path ++ [.function]) t

/-- A statement that leaves a loop or goes on with it stands in a loop, and no function definition
comes in between. A statement that returns stands in a function definition. -/
def Stmt.WellPlaced (path : List Enclosure) : Stmt → Prop
  | .breakLoop | .continueLoop => .loop ∈ path.takeWhile (· ≠ .function)
  | .returnValue _ => .function ∈ path
  | _ => True

/-! ### Scopes -/

/-- The scope inside all constructs of a path. -/
def Scope.along (scope : Scope) (path : List Enclosure) : Scope :=
  path.foldr (fun construct scope => scope.enter construct) scope

theorem Scope.along_append (scope : Scope) (path : List Enclosure) (construct : Enclosure) :
    scope.along (path ++ [construct]) = (scope.enter construct).along path := by
  rw [along, List.foldr_append]
  rfl

theorem Scope.inLoop_along_top {path : List Enclosure} (h : (top.along path).inLoop = true) :
    .loop ∈ path.takeWhile (· ≠ .function) := by
  induction path with
  | nil => cases h
  | cons construct path ih =>
    cases construct with
    | loop => simp
    | function => cases h

theorem Scope.inFunction_along_top {path : List Enclosure}
    (h : (top.along path).inFunction = true) : .function ∈ path := by
  induction path with
  | nil => cases h
  | cons construct path ih =>
    cases construct with
    | loop => exact List.mem_cons_of_mem _ (ih h)
    | function => exact List.mem_cons_self

/-! ### Statements that are built up -/

/-- Whether no other statements can stand in a statement. -/
def Stmt.isSimple : Stmt → Bool
  | .branch .. | .whileLoop .. | .forLoop .. | .define .. => false
  | _ => true

/-- What the constructs around a simple statement have to allow. -/
def Stmt.Allowed (scope : Scope) : Stmt → Prop
  | .breakLoop | .continueLoop => scope.inLoop = true
  | .returnValue _ => scope.inFunction = true
  | _ => True

/-- The statements that can be built up in a scope, from expressions that satisfy `P` with all their
parts. -/
inductive Stmt.Formed (P : Expr → Prop) : Scope → Stmt → Prop
  | simple {scope s} (hs : s.isSimple = true) (hallowed : s.Allowed scope)
      (hexprs : ∀ e ∈ s.exprs, e.Holds P) : Formed P scope s
  | branch {scope branches otherwise} (htests : ∀ b ∈ branches, b.1.Holds P)
      (hbodies : ∀ b ∈ branches, ∀ s ∈ b.2, Formed P scope s)
      (hotherwise : ∀ s ∈ otherwise, Formed P scope s) : Formed P scope (.branch branches otherwise)
  | whileLoop {scope test body} (htest : test.Holds P)
      (hbody : ∀ s ∈ body, Formed P (scope.enter .loop) s) : Formed P scope (.whileLoop test body)
  | forLoop {scope names iterable body} (hiterable : iterable.Holds P)
      (hbody : ∀ s ∈ body, Formed P (scope.enter .loop) s) :
      Formed P scope (.forLoop names iterable body)
  | define {scope name params body} (hparams : ∀ p ∈ params, ∀ e ∈ p.default?, e.Holds P)
      (hnames : (params.map (·.name)).Nodup)
      (hbody : ∀ s ∈ body, Formed P (scope.enter .function) s) :
      Formed P scope (.define name params body)

namespace Stmt.Formed

variable {P : Expr → Prop} {scope : Scope} {s t : Stmt} {path : List Enclosure}

/-- All expressions in a statement that is built up satisfy `P`. -/
theorem holds (h : s.Formed P scope) : s.Holds P := by
  induction h with
  | @simple scope s hs hallowed hexprs =>
    have hbodies : s.bodies = [] := by cases s <;> first | rfl | cases hs
    exact Stmt.holds_iff.mpr ⟨hexprs, by simp [hbodies]⟩
  | branch htests _ _ ihbodies ihotherwise =>
    refine Stmt.holds_iff.mpr ⟨List.forall_mem_map.mpr htests, ?_⟩
    refine List.forall_mem_append.mpr ⟨fun s hs => ?_, ihotherwise⟩
    obtain ⟨b, hb, hs⟩ := List.mem_flatMap.mp hs
    exact ihbodies b hb s hs
  | whileLoop hexpr _ ih | forLoop hexpr _ ih =>
    exact Stmt.holds_iff.mpr ⟨List.forall_mem_singleton.mpr hexpr, ih⟩
  | define hparams _ _ ih =>
    refine Stmt.holds_iff.mpr ⟨fun e he => ?_, ih⟩
    obtain ⟨param, hparam, he⟩ := List.mem_filterMap.mp he
    exact hparams param hparam e he

/-- What stands in a statement that is built up is built up in the scope along the path to it. -/
theorem along (h : s.Formed P scope) (ht : s.Encloses path t) : t.Formed P (scope.along path) := by
  induction ht generalizing scope with
  | self => exact h
  | branch hb hs _ ih =>
    cases h with
    | simple hsimple => cases hsimple
    | branch _ hbodies _ => exact ih (hbodies _ hb _ hs)
  | otherwise hs _ ih =>
    cases h with
    | simple hsimple => cases hsimple
    | branch _ _ hotherwise => exact ih (hotherwise _ hs)
  | whileLoop hs _ ih | forLoop hs _ ih =>
    rw [Scope.along_append]
    cases h with
    | simple hsimple => cases hsimple
    | _ _ hbody => exact ih (hbody _ hs)
  | define hs _ ih =>
    rw [Scope.along_append]
    cases h with
    | simple hsimple => cases hsimple
    | define _ _ hbody => exact ih (hbody _ hs)

/-- What stands in a statement that is built up at the outermost level is well placed. -/
theorem wellPlaced (h : s.Formed P .top) (ht : s.Encloses path t) : t.WellPlaced path := by
  cases h.along ht with
  | simple _ hallowed =>
    cases t with
    | breakLoop | continueLoop => exact Scope.inLoop_along_top hallowed
    | returnValue value => exact Scope.inFunction_along_top hallowed
    | _ => trivial
  | _ => trivial

end Stmt.Formed

end NoteShell.Grammar
