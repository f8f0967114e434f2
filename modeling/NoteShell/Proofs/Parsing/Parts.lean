import NoteShell.Proofs.Parsing.Derivation

/-!
# The parts of trees and statements

The expressions that stand in an expression or in a statement, at any depth. The fields of formatted
texts belong to them, although they are parsed as source texts of their own.

## Main definitions

* `Expr.Contains`, `Stmt.Contains` : an expression stands in another one, or in a statement.

## Main results

* `Derived.forall_contains` : what holds of all derived trees holds of all their parts.
-/

namespace NoteShell.Grammar

/-- The value of a field in a formatted text. -/
def Piece.value? : Piece → Option Expr
  | .literal _ => none
  | .field value _ _ => some value

/-- The parts of an expression, one level down. -/
def Expr.children : Expr → List Expr
  | .none | .bool _ | .int _ | .float _ | .str _ | .name _ => []
  | .formatted pieces => pieces.filterMap Piece.value?
  | .list items => items
  | .dict entries => entries.map (·.1) ++ entries.map (·.2)
  | .member target _ => [target]
  | .index target i => [target, i]
  | .slice target start stop => target :: (start.toList ++ stop.toList)
  | .call callee args keywords => callee :: (args ++ keywords.map (·.2))
  | .unary _ operand => [operand]
  | .binary _ left right => [left, right]
  | .compare first links => first :: links.map (·.2)
  | .logic _ left right => [left, right]
  | .conditional test body otherwise => [test, body, otherwise]

/-- An expression stands in another one, or is the other one. -/
inductive Expr.Contains : Expr → Expr → Prop
  | self (e) : Contains e e
  | part {e c g} (hc : c ∈ e.children) (h : Contains c g) : Contains e g

/-- The expressions of a target. -/
def Target.exprs : Target → List Expr
  | .name _ => []
  | .index container i => [container, i]

/-- The expressions of a statement, without those of the statements in it. -/
def Stmt.exprs : Stmt → List Expr
  | .expr e | .raise e => [e]
  | .assign targets e => e :: targets.flatMap Target.exprs
  | .update _ target e => e :: target.exprs
  | .branch branches _ => branches.map (·.1)
  | .whileLoop test _ => [test]
  | .forLoop _ iterable _ => [iterable]
  | .define _ params _ => params.filterMap Param.default?
  | .returnValue e => e.toList
  | .delete targets => targets.flatMap Target.exprs
  | .breakLoop | .continueLoop | .pass | .declareGlobal _ => []

/-- The statements in a statement. -/
def Stmt.bodies : Stmt → List Stmt
  | .branch branches otherwise => branches.flatMap (·.2) ++ otherwise
  | .whileLoop _ body | .forLoop _ _ body | .define _ _ body => body
  | _ => []

/-- An expression stands in a statement. -/
inductive Stmt.Contains : Stmt → Expr → Prop
  | here {s e g} (he : e ∈ s.exprs) (h : e.Contains g) : Contains s g
  | inside {s t g} (ht : t ∈ s.bodies) (h : Contains t g) : Contains s g

/-- All expressions in an expression satisfy `P`. -/
def Expr.Holds (P : Expr → Prop) (e : Expr) : Prop := ∀ g, e.Contains g → P g

/-- All expressions in a statement satisfy `P`. -/
def Stmt.Holds (P : Expr → Prop) (s : Stmt) : Prop := ∀ g, s.Contains g → P g

variable {P : Expr → Prop} {e : Expr} {s : Stmt}

theorem Expr.holds_iff : e.Holds P ↔ P e ∧ ∀ c ∈ e.children, c.Holds P := by
  constructor
  · exact fun h => ⟨h e (.self e), fun c hc g hg => h g (.part hc hg)⟩
  · rintro ⟨he, hchildren⟩ g hg
    cases hg with
    | self => exact he
    | part hc hg => exact hchildren _ hc g hg

theorem Expr.holds_of_leaf (he : P e) (hchildren : e.children = []) : e.Holds P :=
  holds_iff.mpr ⟨he, by simp [hchildren]⟩

theorem Stmt.holds_iff : s.Holds P ↔ (∀ e ∈ s.exprs, e.Holds P) ∧ ∀ t ∈ s.bodies, t.Holds P := by
  constructor
  · exact fun h => ⟨fun e he g hg => h g (.here he hg), fun t ht g hg => h g (.inside ht hg)⟩
  · rintro ⟨hexprs, hbodies⟩ g hg
    cases hg with
    | here he hg => exact hexprs _ he g hg
    | inside ht hg => exact hbodies _ ht g hg

/-- What holds of all trees that can be built up, and of all parts of the leaves, holds of all parts
of such a tree. -/
theorem Derived.forall_contains {leaf : Expr → Prop} {most budget n : Nat} {place : Place}
    (h : Derived leaf most n place e) (hn : n ≤ budget)
    (hP : ∀ m place g, m ≤ budget → Derived leaf most m place g → P g)
    (hleaf : ∀ e, leaf e → ∀ c ∈ e.children, c.Holds P) : e.Holds P := by
  have hnode {m : Nat} {place : Place} {e : Expr} (hm : m ≤ budget)
      (h : Derived leaf most m place e) (hc : ∀ c ∈ e.children, c.Holds P) : e.Holds P :=
    Expr.holds_iff.mpr ⟨hP m place e hm h, hc⟩
  induction h with
  | leaf he => exact hnode hn (.leaf he) (hleaf _ he)
  | looser _ ih => exact ih hn
  | enter _ ih => exact ih (by omega)
  | enclosed _ ih => exact ih (by omega)
  | list h hlength ih => exact hnode hn (.list h hlength) fun c hc => ih c hc (by omega)
  | dict hkeys hvalues ihkeys ihvalues =>
    refine hnode hn (.dict hkeys hvalues) (List.forall_mem_append.mpr ⟨?_, ?_⟩)
    · exact List.forall_mem_map.mpr fun p hp => ihkeys p hp (by omega)
    · exact List.forall_mem_map.mpr fun p hp => ihvalues p hp (by omega)
  | member name h ih => exact hnode hn (.member name h) (by simpa [Expr.children] using ih hn)
  | index h hi ih ihi =>
    exact hnode hn (.index h hi) (by simpa [Expr.children] using ⟨ih hn, ihi hn⟩)
  | slice h hstart hstop ih ihstart ihstop =>
    refine hnode hn (.slice h hstart hstop) (List.forall_mem_cons.mpr ⟨ih hn, ?_⟩)
    refine List.forall_mem_append.mpr ⟨fun c hc => ihstart c ?_ hn, fun c hc => ihstop c ?_ hn⟩
    · exact Option.mem_toList.mp hc
    · exact Option.mem_toList.mp hc
  | call h hargs hvalues ih ihargs ihvalues =>
    refine hnode hn (.call h hargs hvalues) (List.forall_mem_cons.mpr ⟨ih hn, ?_⟩)
    refine List.forall_mem_append.mpr ⟨fun c hc => ihargs c hc hn, ?_⟩
    exact List.forall_mem_map.mpr fun p hp => ihvalues p hp hn
  | unary op h ih => exact hnode hn (.unary op h) (by simpa [Expr.children] using ih hn)
  | power hbase hexponent ih ih' =>
    exact hnode hn (.power hbase hexponent) (by simpa [Expr.children] using ⟨ih hn, ih' hn⟩)
  | binary op hop hleft hright ih ih' =>
    exact hnode hn (.binary op hop hleft hright) (by simpa [Expr.children] using ⟨ih hn, ih' hn⟩)
  | logic op hleft hright ih ih' =>
    exact hnode hn (.logic op hleft hright) (by simpa [Expr.children] using ⟨ih hn, ih' hn⟩)
  | compare hfirst hlinks ih ihlinks =>
    refine hnode hn (.compare hfirst hlinks) (List.forall_mem_cons.mpr ⟨ih hn, ?_⟩)
    exact List.forall_mem_map.mpr fun p hp => ihlinks p hp hn
  | conditional htest hbody hotherwise ih ih' ih'' =>
    exact hnode hn (.conditional htest hbody hotherwise)
      (by simpa [Expr.children] using ⟨ih hn, ih' hn, ih'' hn⟩)

/-! ### Induction over parts -/

theorem sizeOf_pair_lt {α β : Type} [SizeOf α] [SizeOf β] {p : α × β} {ps : List (α × β)}
    (hp : p ∈ ps) : sizeOf p.1 < sizeOf ps ∧ sizeOf p.2 < sizeOf ps := by
  have hlt := List.sizeOf_lt_of_mem hp
  have hsum : sizeOf p = 1 + sizeOf p.1 + sizeOf p.2 := by
    cases p
    rfl
  omega

theorem Piece.sizeOf_value_lt {piece : Piece} (he : piece.value? = some e) :
    sizeOf e < sizeOf piece := by
  cases piece with
  | literal => cases he
  | field value quoted spec =>
    cases he
    rw [field.sizeOf_spec]
    omega

theorem Expr.sizeOf_child_lt {c : Expr} (hc : c ∈ e.children) : sizeOf c < sizeOf e := by
  cases e with
  | none | bool | int | float | str | name => cases hc
  | formatted pieces =>
    obtain ⟨piece, hpiece, hvalue⟩ := List.mem_filterMap.mp hc
    have hlt := List.sizeOf_lt_of_mem hpiece
    have hvalue := Piece.sizeOf_value_lt hvalue
    rw [formatted.sizeOf_spec]
    omega
  | list items =>
    have hlt : sizeOf c < sizeOf items := List.sizeOf_lt_of_mem hc
    rw [list.sizeOf_spec]
    omega
  | dict entries =>
    rw [dict.sizeOf_spec]
    rcases List.mem_append.mp hc with hc | hc
    all_goals
      obtain ⟨p, hp, rfl⟩ := List.mem_map.mp hc
      have hlt := sizeOf_pair_lt hp
      omega
  | call callee args keywords =>
    rw [call.sizeOf_spec]
    rcases List.mem_cons.mp hc with rfl | hc
    · omega
    · rcases List.mem_append.mp hc with hc | hc
      · have hlt := List.sizeOf_lt_of_mem hc
        omega
      · obtain ⟨p, hp, rfl⟩ := List.mem_map.mp hc
        have hlt := sizeOf_pair_lt hp
        omega
  | compare first links =>
    rw [compare.sizeOf_spec]
    rcases List.mem_cons.mp hc with rfl | hc
    · omega
    · obtain ⟨p, hp, rfl⟩ := List.mem_map.mp hc
      have hlt := sizeOf_pair_lt hp
      omega
  | slice target start stop =>
    simp only [children, List.mem_cons, List.mem_append, Option.mem_toList] at hc
    rcases hc with rfl | rfl | rfl <;> simp <;> omega
  | member | unary | index | binary | logic | conditional =>
    simp only [children, List.mem_cons, List.not_mem_nil, or_false] at hc
    rcases hc with rfl | rfl | rfl <;> simp <;> omega

/-- What holds of an expression if it holds of its parts, one level down, holds of all
expressions. -/
theorem Expr.induction {P : Expr → Prop} (step : ∀ e : Expr, (∀ c ∈ e.children, P c) → P e)
    (e : Expr) : P e :=
  step e fun c hc =>
    have := Expr.sizeOf_child_lt hc
    Expr.induction step c
termination_by sizeOf e

theorem Stmt.sizeOf_body_lt {t : Stmt} (ht : t ∈ s.bodies) : sizeOf t < sizeOf s := by
  cases s with
  | branch branches otherwise =>
    rw [branch.sizeOf_spec]
    rcases List.mem_append.mp ht with ht | ht
    · obtain ⟨p, hp, ht⟩ := List.mem_flatMap.mp ht
      have hlt := sizeOf_pair_lt hp
      have hlt' := List.sizeOf_lt_of_mem ht
      omega
    · have hlt := List.sizeOf_lt_of_mem ht
      omega
  | whileLoop test body =>
    have hlt : sizeOf t < sizeOf body := List.sizeOf_lt_of_mem ht
    rw [whileLoop.sizeOf_spec]
    omega
  | forLoop names iterable body =>
    have hlt : sizeOf t < sizeOf body := List.sizeOf_lt_of_mem ht
    rw [forLoop.sizeOf_spec]
    omega
  | define name params body =>
    have hlt : sizeOf t < sizeOf body := List.sizeOf_lt_of_mem ht
    rw [define.sizeOf_spec]
    omega
  | _ => cases ht

/-- What holds of a statement if it holds of the statements in it holds of all statements. -/
theorem Stmt.induction {P : Stmt → Prop} (step : ∀ s : Stmt, (∀ t ∈ s.bodies, P t) → P s)
    (s : Stmt) : P s :=
  step s fun t ht =>
    have := Stmt.sizeOf_body_lt ht
    Stmt.induction step t
termination_by sizeOf s

end NoteShell.Grammar
