import NoteShell.Proofs.Execution.PrimitiveCalls
import NoteShell.Proofs.Regions.Basic

/-!
# Programs stay in regions

A program without a loop with a test stays in every closed region in which its names are bound. In
particular it calls no function but those that it could reach when it began and those that it
defines, and as these contain no loop with a test either, no loop uses up its rounds.

## Main results

* `Region.primitives`, `Region.lawful` : primitive effects and programs stay in a region.
* `neverOutOfRounds` : a program without a loop with a test runs out of no rounds.
-/

namespace NoteShell.Grammar

/-- What stands in a statement without a loop with a test has none itself. -/
theorem Stmt.WhileFree.bodies {s : Stmt} (hs : s.WhileFree) : ∀ t ∈ s.bodies, t.WhileFree := by
  intro t ht path test body h
  cases s with
  | branch branches otherwise =>
    rcases List.mem_append.mp ht with ht | ht
    · obtain ⟨b, hb, ht⟩ := List.mem_flatMap.mp ht
      exact hs _ _ _ (.branch hb ht h)
    · exact hs _ _ _ (.otherwise ht h)
  | whileLoop test' body' => exact hs _ _ _ (.self _)
  | forLoop names iterable body' => exact hs _ _ _ (.forLoop ht h)
  | define name params body' => exact hs _ _ _ (.define ht h)
  | _ => exact absurd ht List.not_mem_nil

end NoteShell.Grammar

namespace NoteShell.Script

open NoteShell.Grammar

variable {G : Region}

/-! ### The discipline of a region -/

/-- The primitive values refer to nothing, new lists and dicts are in every closed region, and what
is given or read is in the region already. -/
theorem Region.primitives (G : Region) :
    G.discipline.Primitives (fun _ => True) fun _ => True where
  smaller _ _ := trivial
  checked _ := trivial
  number := in_of_isNumber
  none := in_of_ref?_eq_none rfl
  text := iff_of_true (in_of_ref?_eq_none rfl) trivial
  range _ := in_of_ref?_eq_none rfl
  type _ := in_of_ref?_eq_none rfl
  builtin _ _ _ := trivial
  strMethod _ := ⟨trivial, fun _ _ => trivial⟩
  listMethod hr := in_list.mpr (hr _ rfl)
  dictMethod hr := ⟨in_dict.mpr (hr _ rfl), fun _ _ => trivial⟩
  key := Iff.rfl
  noEntries := by simp [Region.discipline]
  entry hes he := ⟨trivial, hes _ he⟩
  set hes _ hv := by
    intro e he
    rcases Entries.mem_of_mem_set he with rfl | he
    · exact hv
    · exact hes e he
  erase k hes e he := hes e ((Entries.erase_sublist k _).subset he)
  items hG hr := ⟨trivial, hG.items (in_list.mp hr)⟩
  entries hG hr := hG.entries (in_dict.mp hr)
  newList hG hitems := hG.newList hitems.values
  newDict hG hes := hG.newDict hes
  updateList hG _ _ hf := hG.updateList hf.values
  updateDict hG _ _ hf := hG.updateDict hf

/-- A method refers to nothing but the list or dict whose method it is. -/
theorem in_methodOf {v : Value} (hv : v.In G) (name : String) :
    Ensures (·.In G) (methodOf v name) := by
  intro m hm
  rcases methodOf_eq_ok hm with ⟨s, method, rfl, -, rfl⟩ | ⟨r, method, rfl, -, rfl⟩ |
    ⟨r, method, rfl, -, rfl⟩ <;> exact hv

/-- Programs without a loop with a test, in which names mean values in the region. -/
theorem Region.programs (G : Region) : G.discipline.Programs fun _ => True where
  bound hv := hv
  builtinName _ := in_of_ref?_eq_none rfl
  skillName _ := in_of_ref?_eq_none rfl
  operand hv := G.discipline.operand_of_value hv
  text _ := trivial
  formatted _ _ := trivial
  display _ := trivial
  name _ hv := hv
  method _ hv := in_methodOf hv _
  newFunction hdefaults hbody hG := hG.newFunction hdefaults hbody
  defaults hG hr := hG.defaults (in_function.mp hr)
  body hG hr := hG.bodies (in_function.mp hr)
  exprs _ _ _ := fun _ _ => trivial
  bodies := Stmt.WhileFree.bodies
  loops hs := (hs [] _ _ (.self _)).elim

/-- The discipline of a region is lawful. -/
theorem Region.lawful (G : Region) (env : Env) : G.discipline.Lawful env :=
  G.primitives.lawful (Discipline.documents_of_values id) env.fits_true G.programs

/-! ### Programs -/

/-- The functions that can be reached from a state contain no loop with a test. -/
def State.CallsWhileFree (s : State) : Prop :=
  ∀ r, s.Reachable (.function r) → ∀ stmt ∈ (s.heap.function r).body, stmt.WhileFree

/-- A state is in the region of what can be reached from it. -/
theorem State.CallsWhileFree.obeys {s : State} (hs : s.CallsWhileFree) :
    s.Obeys s.region.discipline :=
  ⟨closed_reachable hs, fun _ he => in_region_of_binds (.global he),
    fun _ hframe _ he => in_region_of_binds (.local hframe he)⟩

/-- A program without a loop with a test does not run out of rounds, whatever number of rounds a
loop may make, if it can reach no function with such a loop. -/
theorem neverOutOfRounds (env : Env) {stmts : List Stmt} (hstmts : ∀ s ∈ stmts, s.WhileFree)
    {s : State} (hs : s.CallsWhileFree) :
    ((execBlock env stmts).run env (callHere env s) s).1 ≠ .error .outOfRounds :=
  (obeys_runProgram (s.region.lawful env) hstmts s s hs.obeys).2.1

end NoteShell.Script
