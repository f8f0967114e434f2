import Mathlib.Data.List.Chain
import Mathlib.Logic.Relation
import NoteShell.Proofs.Values.JsonForm
import NoteShell.Proofs.Values.Ranges

/-!
# Containers that are passed to skills

The conversion of a value to a document follows references, and so it goes along the paths of a
graph that may share containers and run in circles. What keeps it from running on is the stack of
the containers that are open: a container that is met again while it is open is refused, and so is
any other one when the stack is full. A container that has been left may be met again, so that a
value which shares its parts is converted like a tree. The conversion fails just where some path is
too long, which all circles make it, or leads to a range with too many terms.

## Main definitions

* `Heap.Contains` : a list or a dict directly contains a value.
* `Heap.IsChain` : containers, each of which directly contains the next.
* `Converts` : the rules of the conversion, in which nothing but the stack is counted.

## Main results

* `converts_jsonWithin` : the conversion follows its rules to an end.
* `bounds_of_jsonWithin`, `exists_jsonWithin` : it succeeds where all chains are short enough.
* `cycle_of_circular` : where it reports a circle there is one.
* `toJson_of_any_heap` : what is said above, for all heaps.
-/

namespace NoteShell.Script

open NoteShell.Grammar Relation

/-- A list or a dict. -/
def Value.IsContainer : Value → Prop
  | .list _ | .dict _ => True
  | _ => False

/-- The items of a list, or the values of a dict. -/
def Heap.parts (h : Heap) : Value → List Value
  | .list r => (h.items r).toList
  | .dict r => (h.entries r).map (·.2)
  | _ => []

/-- The document of a list or a dict, made from those of its parts. -/
def Heap.document (h : Heap) : Value → List Json → Json
  | .list _, parts => .arr parts
  | .dict r, parts => .object ((h.entries r).keys.zip parts)
  | _, _ => .null

/-- A value is an item of a list, or a value of a dict. -/
def Heap.Contains (h : Heap) (c v : Value) : Prop := v ∈ h.parts c

/-- Containers, each of which directly contains the next. -/
structure Heap.IsChain (h : Heap) (chain : List Value) : Prop where
  containers : ∀ c ∈ chain, c.IsContainer
  contains : chain.IsChain h.Contains

mutual

/-- The rules of the conversion. A container is converted by converting its parts while it is
open. -/
inductive Converts (h : Heap) : (stack : List Value) → Value → Except EvalError Json → Prop
  | scalar {stack v} (hv : ¬ v.IsContainer) : Converts h stack v (scalarJson h v)
  | circular {stack v} (hv : v.IsContainer) (hopen : v ∈ stack) :
    Converts h stack v (.error (.value .circular))
  | tooDeep {stack v} (hv : v.IsContainer) (hopen : v ∉ stack)
    (hfull : maxSkillNesting ≤ stack.length) : Converts h stack v (.error (.value .tooDeepForSkill))
  | container {stack v result} (hv : v.IsContainer) (hopen : v ∉ stack)
    (hroom : stack.length < maxSkillNesting) (hparts : ConvertsAll h (v :: stack) (h.parts v) result) :
    Converts h stack v (result.map (h.document v))

/-- Values are converted in order, up to the first error. -/
inductive ConvertsAll (h : Heap) : (stack : List Value) → List Value →
    Except EvalError (List Json) → Prop
  | nil {stack} : ConvertsAll h stack [] (.ok [])
  | stop {stack v vs e} (hv : Converts h stack v (.error e)) : ConvertsAll h stack (v :: vs) (.error e)
  | next {stack v vs j result} (hv : Converts h stack v (.ok j)) (hvs : ConvertsAll h stack vs result) :
    ConvertsAll h stack (v :: vs) (result.map (j :: ·))

end

variable {h : Heap} {v c : Value} {n : Nat} {openLists : List ListRef} {openDicts : List DictRef}
  {stack : List Value}

theorem Heap.Contains.isContainer (hc : h.Contains c v) : c.IsContainer := by
  cases c with
  | list | dict => trivial
  | _ => cases hc

/-! ### Converting several values -/

theorem collect_acc {α β : Type} (f : α → Except EvalError β) (acc : List β) (xs : List α) :
    collect f acc xs = (collect f [] xs).map (acc.reverse ++ ·) := by
  induction xs generalizing acc with
  | nil => simp [collect, Except.map]
  | cons x xs ih =>
    rw [collect, collect]
    cases f x with
    | error e => rfl
    | ok y =>
      dsimp only
      rw [ih (y :: acc), ih [y]]
      cases collect f [] xs <;> simp [Except.map]

theorem collect_cons {α β : Type} (f : α → Except EvalError β) (x : α) (xs : List α) :
    collect f [] (x :: xs) = f x >>= fun y => (collect f [] xs).map (y :: ·) := by
  rw [collect]
  cases f x with
  | error e => rfl
  | ok y => exact collect_acc f [y] xs

theorem collect_keyed {α β : Type} (f : α → Except EvalError β) (entries : List (String × α)) :
    collect (fun e => (f e.2).map (e.1, ·)) [] entries =
      (collect f [] (entries.map (·.2))).map ((entries.map (·.1)).zip ·) := by
  induction entries with
  | nil => rfl
  | cons e entries ih =>
    rw [collect_cons, List.map_cons, List.map_cons, collect_cons, ih]
    cases f e.2 with
    | error => rfl
    | ok y => cases collect f [] (entries.map (·.2)) <;> rfl

/-- All values are converted just where each of them is. -/
theorem exists_collect_iff {α β : Type} {f : α → Except EvalError β} {xs : List α} :
    (∃ ys, collect f [] xs = .ok ys) ↔ ∀ x ∈ xs, ∃ y, f x = .ok y := by
  induction xs with
  | nil => simp [collect]
  | cons x xs ih =>
    rw [List.forall_mem_cons, ← ih, collect_cons]
    cases f x with
    | error e => simp [bind, Except.bind]
    | ok y => cases collect f [] xs <;> simp [bind, Except.bind, Except.map]

theorem exists_of_collect_error {α β : Type} {f : α → Except EvalError β} {xs : List α}
    {e : EvalError} (hxs : collect f [] xs = .error e) : ∃ x ∈ xs, f x = .error e := by
  induction xs with
  | nil => cases hxs
  | cons x xs ih =>
    rw [collect_cons] at hxs
    cases hx : f x with
    | error e' =>
      rw [hx] at hxs
      cases hxs
      exact ⟨x, List.mem_cons_self, hx⟩
    | ok y =>
      rw [hx] at hxs
      cases hrest : collect f [] xs with
      | error e' =>
        rw [hrest] at hxs
        cases hxs
        obtain ⟨x', hx', he⟩ := ih hrest
        exact ⟨x', List.mem_cons_of_mem _ hx', he⟩
      | ok ys =>
        rw [hrest] at hxs
        cases hxs

/-! ### One level of the conversion -/

/-- The open containers of the conversion are those on the stack. -/
structure Tracks (openLists : List ListRef) (openDicts : List DictRef) (stack : List Value) : Prop where
  lists : ∀ r, r ∈ openLists ↔ .list r ∈ stack
  dicts : ∀ r, r ∈ openDicts ↔ .dict r ∈ stack

theorem tracks_nil : Tracks [] [] [] := ⟨by simp, by simp⟩

/-- Only ranges with too many terms have no document among the values that are no containers. -/
theorem exists_scalarJson_iff (hv : ¬ v.IsContainer) :
    (∃ j, scalarJson h v = .ok j) ↔ ∀ r, v = .range r → r.length ≤ maxSequence := by
  cases v with
  | list | dict => exact absurd trivial hv
  | range r =>
    rw [scalarJson]
    rcases Nat.lt_or_ge maxSequence r.length with hlt | hle
    · obtain ⟨e, he⟩ := rangeTerms_of_lt hlt
      rw [he]
      refine iff_of_false (fun ⟨j, hj⟩ => nomatch hj) fun hr => ?_
      exact absurd (hr r rfl) (Nat.not_le.mpr hlt)
    · rw [rangeTerms_of_le hle]
      refine iff_of_true ⟨_, rfl⟩ fun r' hr' => ?_
      cases hr'
      exact hle
  | _ => exact iff_of_true ⟨_, rfl⟩ nofun

theorem scalarJson_ne_circular (v : Value) : scalarJson h v ≠ .error (.value .circular) := by
  cases v with
  | range r =>
    rw [scalarJson]
    rcases Nat.lt_or_ge maxSequence r.length with hlt | hle
    · obtain ⟨e, he⟩ := rangeTerms_of_lt hlt
      rw [he]
      nofun
    · rw [rangeTerms_of_le hle]
      nofun
  | _ => nofun

theorem jsonWithin_scalar (hv : ¬ v.IsContainer) :
    jsonWithin h n openLists openDicts v = scalarJson h v := by
  cases v with
  | list | dict => exact absurd trivial hv
  | _ =>
    rw [jsonWithin]
    · simp
    · simp

theorem jsonWithin_open (htracks : Tracks openLists openDicts stack) (hv : v.IsContainer)
    (hopen : v ∈ stack) : jsonWithin h n openLists openDicts v = .error (.value .circular) := by
  cases v with
  | list r => cases n <;> simp [jsonWithin, htracks.lists r, hopen]
  | dict r => cases n <;> simp [jsonWithin, htracks.dicts r, hopen]
  | _ => cases hv

theorem jsonWithin_zero (htracks : Tracks openLists openDicts stack) (hv : v.IsContainer)
    (hopen : v ∉ stack) : jsonWithin h 0 openLists openDicts v =
      .error (.value .tooDeepForSkill) := by
  cases v with
  | list r => simp [jsonWithin, htracks.lists r, hopen]
  | dict r => simp [jsonWithin, htracks.dicts r, hopen]
  | _ => cases hv

/-- A container that is not open is opened, and its parts are converted on the next level. -/
theorem jsonWithin_succ (htracks : Tracks openLists openDicts stack) (hv : v.IsContainer)
    (hopen : v ∉ stack) :
    ∃ openLists' openDicts', Tracks openLists' openDicts' (v :: stack) ∧
      jsonWithin h (n + 1) openLists openDicts v =
        (collect (jsonWithin h n openLists' openDicts') [] (h.parts v)).map (h.document v) := by
  cases v with
  | list r =>
    refine ⟨r :: openLists, openDicts, ⟨fun s => ?_, fun s => ?_⟩, ?_⟩
    · simp [htracks.lists s]
    · simp [htracks.dicts s]
    · simp only [jsonWithin, List.contains_iff_mem, htracks.lists r, hopen, if_false]
      rfl
  | dict r =>
    refine ⟨openLists, r :: openDicts, ⟨fun s => ?_, fun s => ?_⟩, ?_⟩
    · simp [htracks.lists s]
    · simp [htracks.dicts s]
    · simp only [jsonWithin, List.contains_iff_mem, htracks.dicts r, hopen, if_false, collect_keyed,
        Heap.parts]
      cases collect (jsonWithin h n openLists (r :: openDicts)) [] ((h.entries r).map (·.2)) <;> rfl
  | _ => cases hv

/-- All that one level of the conversion can do. -/
theorem jsonWithin_cases (h : Heap) (n : Nat) (v : Value)
    (htracks : Tracks openLists openDicts stack) :
    (¬ v.IsContainer ∧ jsonWithin h n openLists openDicts v = scalarJson h v) ∨
    (v.IsContainer ∧ v ∈ stack ∧
      jsonWithin h n openLists openDicts v = .error (.value .circular)) ∨
    (v.IsContainer ∧ v ∉ stack ∧ n = 0 ∧
      jsonWithin h n openLists openDicts v = .error (.value .tooDeepForSkill)) ∨
    ∃ m openLists' openDicts', v.IsContainer ∧ v ∉ stack ∧ n = m + 1 ∧
      Tracks openLists' openDicts' (v :: stack) ∧
      jsonWithin h n openLists openDicts v =
        (collect (jsonWithin h m openLists' openDicts') [] (h.parts v)).map (h.document v) := by
  by_cases hv : v.IsContainer
  · by_cases hopen : v ∈ stack
    · exact .inr (.inl ⟨hv, hopen, jsonWithin_open htracks hv hopen⟩)
    · cases n with
      | zero => exact .inr (.inr (.inl ⟨hv, hopen, rfl, jsonWithin_zero htracks hv hopen⟩))
      | succ m =>
        obtain ⟨openLists', openDicts', htracks', hjson⟩ := jsonWithin_succ htracks hv hopen
        exact .inr (.inr (.inr ⟨m, openLists', openDicts', hv, hopen, rfl, htracks', hjson⟩))
  · exact .inl ⟨hv, jsonWithin_scalar hv⟩

/-! ### The rules -/

/-- Several values follow the rules if each of them does. -/
theorem convertsAll_collect {f : Value → Except EvalError Json} {vs : List Value}
    (hvs : ∀ v ∈ vs, Converts h stack v (f v)) : ConvertsAll h stack vs (collect f [] vs) := by
  induction vs with
  | nil => exact .nil
  | cons v vs ih =>
    obtain ⟨hv, hvs⟩ := List.forall_mem_cons.mp hvs
    rw [collect_cons]
    cases hf : f v with
    | error e => exact .stop (hf ▸ hv)
    | ok j => exact .next (hf ▸ hv) (ih hvs)

/-- The conversion follows its rules to an end, since the levels that are left are the room on the
stack. -/
theorem converts_jsonWithin (htracks : Tracks openLists openDicts stack)
    (hroom : n + stack.length = maxSkillNesting) :
    Converts h stack v (jsonWithin h n openLists openDicts v) := by
  induction n using Nat.strong_induction_on generalizing v openLists openDicts stack with
  | _ n ih =>
    obtain ⟨hv, hjson⟩ | ⟨hv, hopen, hjson⟩ | ⟨hv, hopen, rfl, hjson⟩ |
        ⟨m, openLists', openDicts', hv, hopen, rfl, htracks', hjson⟩ :=
      jsonWithin_cases h n v htracks
    · exact hjson ▸ .scalar hv
    · exact hjson ▸ .circular hv hopen
    · exact hjson ▸ .tooDeep hv hopen (by omega)
    · rw [hjson]
      refine .container hv hopen (by omega) (convertsAll_collect fun w _ => ?_)
      exact ih m (Nat.lt_succ_self m) htracks' (by rw [List.length_cons]; omega)

/-! ### Chains and circles -/

theorem Heap.IsChain.cons {rest : List Value} (hchain : h.IsChain (v :: rest))
    (hc : h.Contains c v) :
    h.IsChain (c :: v :: rest) :=
  ⟨List.forall_mem_cons.mpr ⟨hc.isContainer, hchain.containers⟩, hchain.contains.cons_cons hc⟩

theorem Heap.IsChain.tail {rest : List Value} (hchain : h.IsChain (c :: v :: rest)) :
    h.Contains c v ∧ h.IsChain (v :: rest) :=
  ⟨hchain.contains.rel, fun w hw => hchain.containers w (List.mem_cons_of_mem c hw),
    hchain.contains.tail⟩

/-- A container that contains itself begins chains of any length. -/
theorem exists_chain_of_cycle (hv : TransGen h.Contains v v) (n : Nat) :
    ∃ rest, h.IsChain (v :: rest) ∧ rest.length = n := by
  induction n generalizing v with
  | zero =>
    obtain ⟨c, hc, -⟩ := TransGen.head'_iff.mp hv
    exact ⟨[], ⟨List.forall_mem_singleton.mpr hc.isContainer, .singleton v⟩, rfl⟩
  | succ n ih =>
    obtain ⟨c, hc, hcv⟩ := TransGen.head'_iff.mp hv
    obtain ⟨rest, hrest, hlength⟩ := ih (TransGen.tail' hcv hc)
    exact ⟨c :: rest, hrest.cons hc, by rw [List.length_cons, hlength]⟩

/-- Where chains are bounded nothing contains itself. -/
theorem not_cycle_of_chains (hchains : ∀ rest, h.IsChain (v :: rest) → (v :: rest).length ≤ n) :
    ¬ TransGen h.Contains v v := by
  intro hcycle
  obtain ⟨rest, hrest, rfl⟩ := exists_chain_of_cycle hcycle n
  exact absurd (hchains rest hrest) (Nat.not_succ_le_self rest.length)

/-- All containers on the stack lead to the value that is converted. -/
theorem leads_of_part {w : Value} (hleads : ∀ c ∈ stack, TransGen h.Contains c v)
    (hw : h.Contains v w) : ∀ c ∈ v :: stack, TransGen h.Contains c w :=
  List.forall_mem_cons.mpr ⟨.single hw, fun c hc => (hleads c hc).tail hw⟩

/-- The chains and the ranges of what is converted are bounded: those of a container by those of its
parts. -/
theorem bounds_of_jsonWithin {j : Json} (htracks : Tracks openLists openDicts stack)
    (hj : jsonWithin h n openLists openDicts v = .ok j) :
    (∀ rest, h.IsChain (v :: rest) → (v :: rest).length ≤ n) ∧
      ∀ r, ReflTransGen h.Contains v (.range r) → r.length ≤ maxSequence := by
  induction n using Nat.strong_induction_on generalizing v j openLists openDicts stack with
  | _ n ih =>
    obtain ⟨hv, hjson⟩ | ⟨-, -, hjson⟩ | ⟨-, -, rfl, hjson⟩ |
        ⟨m, openLists', openDicts', hv, -, rfl, htracks', hjson⟩ :=
      jsonWithin_cases h n v htracks
    · refine ⟨fun rest hrest => absurd (hrest.containers v List.mem_cons_self) hv, fun r hr => ?_⟩
      rcases hr.cases_head with rfl | ⟨c, hc, -⟩
      · exact (exists_scalarJson_iff hv).mp ⟨j, hjson ▸ hj⟩ r rfl
      · exact absurd hc.isContainer hv
    · cases hjson.symm.trans hj
    · cases hjson.symm.trans hj
    · have hparts : ∀ w ∈ h.parts v, ∃ j, jsonWithin h m openLists' openDicts' w = .ok j := by
        rw [hjson] at hj
        refine exists_collect_iff.mp ?_
        cases hcollect : collect (jsonWithin h m openLists' openDicts') [] (h.parts v) with
        | ok js => exact ⟨js, rfl⟩
        | error e =>
          rw [hcollect] at hj
          cases hj
      refine ⟨fun rest hrest => ?_, fun r hr => ?_⟩
      · cases rest with
        | nil => exact Nat.succ_le_succ (Nat.zero_le m)
        | cons c rest =>
          obtain ⟨hc, hrest⟩ := hrest.tail
          obtain ⟨j, hj⟩ := hparts c hc
          exact Nat.succ_le_succ ((ih m (Nat.lt_succ_self m) htracks' hj).1 rest hrest)
      · rcases hr.cases_head with rfl | ⟨c, hc, hr⟩
        · cases hv
        · obtain ⟨j, hj⟩ := hparts c hc
          exact (ih m (Nat.lt_succ_self m) htracks' hj).2 r hr

/-- A value is converted if its chains fit the levels and its ranges are short. No open container is
met again, since it would begin longer chains. -/
theorem exists_jsonWithin (htracks : Tracks openLists openDicts stack)
    (hleads : ∀ c ∈ stack, TransGen h.Contains c v)
    (hchains : ∀ rest, h.IsChain (v :: rest) → (v :: rest).length ≤ n)
    (hranges : ∀ r, ReflTransGen h.Contains v (.range r) → r.length ≤ maxSequence) :
    ∃ j, jsonWithin h n openLists openDicts v = .ok j := by
  induction n using Nat.strong_induction_on generalizing v openLists openDicts stack with
  | _ n ih =>
    obtain ⟨hv, hjson⟩ | ⟨-, hopen, -⟩ | ⟨hv, -, rfl, -⟩ |
        ⟨m, openLists', openDicts', hv, -, rfl, htracks', hjson⟩ :=
      jsonWithin_cases h n v htracks
    · rw [hjson]
      exact (exists_scalarJson_iff hv).mpr fun r hr => hranges r (hr ▸ .refl)
    · exact absurd (hleads v hopen) (not_cycle_of_chains hchains)
    · exact absurd (hchains [] ⟨List.forall_mem_singleton.mpr hv, .singleton v⟩)
        (Nat.not_succ_le_zero 0)
    · have hparts : ∀ w ∈ h.parts v, ∃ j, jsonWithin h m openLists' openDicts' w = .ok j := by
        intro w hw
        refine ih m (Nat.lt_succ_self m) htracks' (leads_of_part hleads hw) (fun rest hrest => ?_)
          fun r hr => hranges r (.head hw hr)
        exact Nat.le_of_succ_le_succ (hchains (w :: rest) (hrest.cons hw))
      obtain ⟨js, hjs⟩ := exists_collect_iff.mpr hparts
      rw [hjson, hjs]
      exact ⟨_, rfl⟩

/-- A circle is reported only where there is one. -/
theorem cycle_of_circular (htracks : Tracks openLists openDicts stack)
    (hleads : ∀ c ∈ stack, TransGen h.Contains c v)
    (hv : jsonWithin h n openLists openDicts v = .error (.value .circular)) :
    ∃ c, ReflTransGen h.Contains v c ∧ TransGen h.Contains c c := by
  induction n using Nat.strong_induction_on generalizing v openLists openDicts stack with
  | _ n ih =>
    obtain ⟨-, hjson⟩ | ⟨-, hopen, -⟩ | ⟨-, -, rfl, hjson⟩ |
        ⟨m, openLists', openDicts', -, -, rfl, htracks', hjson⟩ :=
      jsonWithin_cases h n v htracks
    · exact absurd (hjson.symm.trans hv) (scalarJson_ne_circular v)
    · exact ⟨v, .refl, hleads v hopen⟩
    · cases hjson.symm.trans hv
    · rw [hjson] at hv
      have hcollect : collect (jsonWithin h m openLists' openDicts') [] (h.parts v) =
          .error (.value .circular) := by
        cases hcollect : collect (jsonWithin h m openLists' openDicts') [] (h.parts v) with
        | error e =>
          rw [hcollect] at hv
          cases hv
          rfl
        | ok js =>
          rw [hcollect] at hv
          cases hv
      obtain ⟨w, hw, hcircular⟩ := exists_of_collect_error hcollect
      obtain ⟨c, hc, hcycle⟩ :=
        ih m (Nat.lt_succ_self m) htracks' (leads_of_part hleads hw) hcircular
      exact ⟨c, .head hw hc, hcycle⟩

/-- In any heap, whatever it shares and whatever contains itself, the conversion of a value follows
its rules to an end. It succeeds just where no chain of containers from the value on has more than
128 members and no range is longer than 4194304 that the value leads to through items of lists and
values of dicts. A value that contains itself is refused, and a circle is reported only if some
container which the value leads to contains itself. -/
theorem toJson_of_any_heap (h : Heap) (v : Value) :
    Converts h [] v (toJson h v) ∧
    ((∃ j, toJson h v = .ok j) ↔
      (∀ rest, h.IsChain (v :: rest) → (v :: rest).length ≤ 128) ∧
        ∀ r, ReflTransGen h.Contains v (.range r) → r.length ≤ 4194304) ∧
    (TransGen h.Contains v v → ∃ e, toJson h v = .error e) ∧
    (toJson h v = .error (.value .circular) →
      ∃ c, ReflTransGen h.Contains v c ∧ TransGen h.Contains c c) := by
  have hiff : (∃ j, toJson h v = .ok j) ↔
      (∀ rest, h.IsChain (v :: rest) → (v :: rest).length ≤ 128) ∧
        ∀ r, ReflTransGen h.Contains v (.range r) → r.length ≤ 4194304 :=
    ⟨fun ⟨_, hj⟩ => bounds_of_jsonWithin tracks_nil hj,
      fun ⟨hchains, hranges⟩ => exists_jsonWithin tracks_nil (by simp) hchains hranges⟩
  refine ⟨converts_jsonWithin tracks_nil rfl, hiff, fun hcycle => ?_,
    cycle_of_circular tracks_nil (by simp)⟩
  cases hjson : toJson h v with
  | error e => exact ⟨e, rfl⟩
  | ok j => exact absurd hcycle (not_cycle_of_chains (hiff.mp ⟨j, hjson⟩).1)

/-- A list with one list twice in it is converted. A dict that is a value of itself is refused, and
so is a list that leads to it. -/
theorem toJson_of_any_heap_shared :
    let h : Heap := ⟨#[#[.list ⟨1⟩, .list ⟨1⟩], #[.int 1], #[.list ⟨0⟩, .dict ⟨0⟩]],
      #[[("self", .dict ⟨0⟩)]], #[]⟩
    toJson h (.list ⟨0⟩) = .ok (.arr [.arr [.int 1], .arr [.int 1]]) ∧
      (∀ rest, h.IsChain (.list ⟨0⟩ :: rest) → (Value.list ⟨0⟩ :: rest).length ≤ 128) ∧
      (∃ e, toJson h (.dict ⟨0⟩) = .error e) ∧
      toJson h (.list ⟨2⟩) = .error (.value .circular) ∧
      ∃ c, ReflTransGen h.Contains (.list ⟨2⟩) c ∧ TransGen h.Contains c c := by
  intro h
  have hshared : toJson h (.list ⟨0⟩) = .ok (.arr [.arr [.int 1], .arr [.int 1]]) := rfl
  have hself : h.Contains (.dict ⟨0⟩) (.dict ⟨0⟩) := List.mem_singleton_self _
  have hcircular : toJson h (.list ⟨2⟩) = .error (.value .circular) := rfl
  obtain ⟨-, hiff, -, -⟩ := toJson_of_any_heap h (.list ⟨0⟩)
  obtain ⟨-, -, hrefused, -⟩ := toJson_of_any_heap h (.dict ⟨0⟩)
  obtain ⟨-, -, -, hcycle⟩ := toJson_of_any_heap h (.list ⟨2⟩)
  exact ⟨hshared, (hiff.mp ⟨_, hshared⟩).1, hrefused (.single hself), hcircular, hcycle hcircular⟩

end NoteShell.Script
