import NoteShell.Proofs.Execution.Run
import NoteShell.Proofs.Parsing.Sources
import NoteShell.Proofs.Values.Display
import NoteShell.Proofs.Values.Entries

/-!
# Values that are read back

A value that stands for a tree of numbers, texts, lists and dicts is shown as source code. This
source code is an expression, and its value stands for the same tree.

## Main definitions

* `Recreates` : the expression of a tree has a value that stands for the tree.

## Main results

* `reprValue_readBack` : a value as it is shown is parsed and evaluated to an equal value.
-/

namespace NoteShell.Script

open NoteShell.Decimal NoteShell.Grammar

variable {h : Heap} {n : Nat} {v : Value} {d : Data}

/-! ### Evaluation -/

/-- In every state the expression of a tree has a value that stands for the tree, and nothing in the
heap is changed. -/
def Recreates (n : Nat) (d : Data) : Prop :=
  ∀ env call s, ∃ v s', (evalExpr env d.expr).run env call s = (.ok v, s') ∧
    s.heap.Extends s'.heap ∧ dataWithin s'.heap n v = some d

theorem recreates_of_value {v : Value}
    (heval : ∀ env call s, (evalExpr env d.expr).run env call s = (.ok v, s))
    (hd : ∀ h, dataWithin h n v = some d) : Recreates n d :=
  fun env call s => ⟨v, s, heval env call s, .refl _, hd _⟩

theorem recreates_int (n : Nat) {i : Int64} (hi : i ≠ Int64.minValue) : Recreates n (.int i) := by
  refine recreates_of_value (v := .int i) (fun env call s => ?_) fun _ => by rw [dataWithin]
  rw [Data.expr]
  split_ifs with hneg
  · have hvalue : signed .minus (.int (-i)) = .ok (.int i) := by
      simp only [signed, Value.asInt?, if_true, checkedInt, toInt_neg_of_ne hi, Int.neg_neg,
        int64?_toInt]
      rfl
    have hoperand : (evalExpr env (.int (-i))).run env call s = (.ok (.int (-i)), s) := rfl
    rw [evalExpr, Evaluation.run_bind, Run.bind_of_ok hoperand, Evaluation.run_lift,
      Run.readHeap_apply, unary, hvalue]
  · rfl

/-- The values of the expressions of several trees. -/
theorem evalItems_recreates {items : List Data} (hitems : ∀ d ∈ items, Recreates n d) (env : Env)
    (call : Caller) (acc : List Value) (s : State) :
    ∃ vs s', (evalItems env acc (itemExprs items)).run env call s = (.ok (acc.reverse ++ vs), s') ∧
      s.heap.Extends s'.heap ∧ List.Forall₂ (fun v d => dataWithin s'.heap n v = some d)
        vs items := by
  induction items generalizing acc s with
  | nil => exact ⟨[], s, by rw [List.append_nil]; rfl, .refl _, .nil⟩
  | cons d items ih =>
    rw [List.forall_mem_cons] at hitems
    obtain ⟨v, t, hv, hext, hd⟩ := hitems.1 env call s
    obtain ⟨vs, u, hvs, hext', hds⟩ := ih hitems.2 (v :: acc) t
    refine ⟨v :: vs, u, ?_, hext.trans hext', .cons (dataWithin_mono hext' (Nat.le_refl n) hd) hds⟩
    rw [itemExprs, evalItems, Evaluation.run_bind, Run.bind_of_ok hv, hvs, List.reverse_cons,
      List.append_assoc]
    rfl

theorem recreates_list {items : List Data} (hitems : ∀ d ∈ items, Recreates n d) :
    Recreates (n + 1) (.list items) := by
  intro env call s
  obtain ⟨vs, t, hvs, hext, hds⟩ := evalItems_recreates hitems env call [] s
  refine ⟨.list ⟨t.heap.lists.size⟩, { t with heap := (t.heap.newList vs.toArray).2 }, ?_,
    hext.trans (t.heap.extends_newList _), ?_⟩
  · rw [Data.expr, evalExpr, Evaluation.run_bind, Run.bind_of_ok hvs]
    rfl
  · refine dataWithin_list.mpr ⟨vs.toArray, items, ?_, rfl, ?_⟩
    · simp [Heap.newList]
    · exact hds.imp fun v d hd => dataWithin_mono (t.heap.extends_newList _) (Nat.le_refl n) hd

/-- The entries of the expressions of a dict with distinct keys. -/
theorem evalEntries_recreates {entries : List (String × Data)}
    (hvalues : ∀ p ∈ entries, Recreates n p.2) (env : Env) (call : Caller) (acc : Entries)
    (hkeys : (acc.keys ++ entries.map (·.1)).Nodup) (s : State) :
    ∃ es s', (evalEntries env acc (entryExprs entries)).run env call s = (.ok (acc ++ es), s') ∧
      s.heap.Extends s'.heap ∧ SameKeys (fun v d => dataWithin s'.heap n v = some d)
        es entries := by
  induction entries generalizing acc s with
  | nil => exact ⟨[], s, by rw [List.append_nil]; rfl, .refl _, .nil⟩
  | cons p entries ih =>
    obtain ⟨key, d⟩ := p
    rw [List.forall_mem_cons] at hvalues
    obtain ⟨v, t, hv, hext, hd⟩ := hvalues.1 env call s
    have hnot : key ∉ acc.keys := fun hmem =>
      (List.nodup_append.mp hkeys).2.2 key hmem key (by simp) rfl
    obtain ⟨es, u, hes, hext', hds⟩ := ih hvalues.2 (acc.set key v)
      (by rw [Entries.set_of_not_mem hnot]; simpa [Entries.keys] using hkeys) t
    refine ⟨(key, v) :: es, u, ?_, hext.trans hext',
      .cons ⟨rfl, dataWithin_mono hext' (Nat.le_refl n) hd⟩ hds⟩
    rw [Entries.set_of_not_mem hnot, List.append_assoc] at hes
    rw [entryExprs, evalEntries, Evaluation.run_bind]
    change ((evalExpr env d.expr >>= fun v =>
      evalEntries env (acc.set key v) (entryExprs entries)).run env call) s = _
    rw [Evaluation.run_bind, Run.bind_of_ok hv, Entries.set_of_not_mem hnot, hes]
    rfl

theorem recreates_dict {entries : List (String × Data)} (hvalues : ∀ p ∈ entries, Recreates n p.2)
    (hkeys : (entries.map (·.1)).Nodup) : Recreates (n + 1) (.dict entries) := by
  intro env call s
  obtain ⟨es, t, hes, hext, hds⟩ := evalEntries_recreates hvalues env call [] hkeys s
  refine ⟨.dict ⟨t.heap.dicts.size⟩, { t with heap := (t.heap.newDict es).2 }, ?_,
    hext.trans (t.heap.extends_newDict _), ?_⟩
  · rw [Data.expr, evalExpr, Evaluation.run_bind, Run.bind_of_ok hes]
    rfl
  · refine dataWithin_dict.mpr ⟨es, entries, ?_, rfl, ?_⟩
    · simp [Heap.newDict]
    · exact hds.imp fun e p hd =>
        ⟨hd.1, dataWithin_mono (t.heap.extends_newDict _) (Nat.le_refl n) hd.2⟩

/-- The expression of a tree has a value that stands for the tree. -/
theorem recreates_of_dataWithin (hd : dataWithin h n v = some d) : d.Writable → Recreates n d := by
  refine dataWithin_induction (motive := fun n _ d => d.Writable → Recreates n d)
    ?none ?bool ?int ?str ?list ?dict hd
  case none => exact fun n _ => recreates_of_value (fun _ _ _ => rfl) fun _ => by rw [dataWithin]
  case bool => exact fun n b _ => recreates_of_value (fun _ _ _ => rfl) fun _ => by rw [dataWithin]
  case int =>
    intro n i hwritable
    cases hwritable with
    | int _ hi => exact recreates_int n hi
  case str => exact fun n s _ => recreates_of_value (fun _ _ _ => rfl) fun _ => by rw [dataWithin]
  case list =>
    intro n r values items _ _ ih hwritable
    cases hwritable with
    | list _ hitems =>
      exact recreates_list fun d hd => forall_mem_right ih (fun _ _ hd => hd) d hd (hitems d hd)
  case dict =>
    intro n r entries data _ _ ih hwritable
    cases hwritable with
    | dict _ hvalues hkeys =>
      exact recreates_dict (fun p hp =>
        forall_mem_right ih (fun _ _ hp => hp.2) p hp (hvalues p hp))
        hkeys

/-! ### Reading back -/

/-- An integer begins with a sign or a digit. -/
theorem toList_intText (i : Int) : ∃ c cs, (intText i).toList = c :: cs ∧ startsLine c = true := by
  rw [intText]
  split_ifs with hneg
  · exact ⟨'-', (natText i.natAbs).toList, by simp, by decide⟩
  · obtain ⟨c, cs, hcs, hc⟩ := toDigits_eq_cons i.natAbs
    refine ⟨c, cs, by rw [natText, String.toList_ofList, hcs], ?_⟩
    by_contra hstart
    simp only [startsLine, Bool.not_eq_true', Bool.not_eq_false, List.contains_eq_mem,
      decide_eq_true_eq, List.mem_cons, List.not_mem_nil, or_false] at hstart
    rcases hstart with rfl | rfl | rfl | rfl | rfl | rfl <;> exact absurd hc (by decide)

/-- A value as it is shown begins without a blank or a comment. -/
theorem toList_reprValue (hd : dataWithin h n v = some d) :
    ∃ c cs, (reprValue h v).toList = c :: cs ∧ startsLine c = true := by
  have hquote (s : String) : startsLine (Text.quoteFor s.toList) = true := by
    rcases quoteFor_eq s.toList with hmark | hmark <;> rw [hmark] <;> decide
  refine dataWithin_induction (motive := fun _ v _ => ∃ c cs,
    (reprValue h v).toList = c :: cs ∧ startsLine c = true) ?none ?bool ?int ?str ?list ?dict hd
  case none =>
    intro _
    rw [reprValue, reprWithin_scalar (by simp) (by simp)]
    exact ⟨'N', ['o', 'n', 'e'], (by simp : "None".toList = _), by decide⟩
  case bool =>
    intro _ b
    rw [reprValue, reprWithin_scalar (by simp) (by simp)]
    cases b
    · exact ⟨'F', ['a', 'l', 's', 'e'], (by simp : "False".toList = _), by decide⟩
    · exact ⟨'T', ['r', 'u', 'e'], (by simp : "True".toList = _), by decide⟩
  case int =>
    intro _ i
    rw [reprValue, reprWithin_scalar (by simp) (by simp)]
    exact toList_intText i.toInt
  case str =>
    intro _ s
    rw [reprValue, reprWithin_scalar (by simp) (by simp)]
    exact ⟨_, _, (String.toList_ofList : (Text.quoted s).toList = _), hquote s⟩
  case list =>
    intro _ r _ _ _ _ _
    exact ⟨_, _, toList_reprWithin_list (by simp), by decide⟩
  case dict =>
    intro _ r _ _ _ _ _
    exact ⟨_, _, toList_reprWithin_dict (by simp), by decide⟩

/-- A value as it is shown is parsed as the expression of its tree. -/
theorem parseExpression_reprValue (hd : dataWithin h maxShownNesting v = some d)
    (hwritable : d.Writable) : parseExpression (reprValue h v) = .ok d.expr := by
  obtain ⟨c, cs, hsource, hc⟩ := toList_reprValue hd
  obtain ⟨ks, k, hks, hk⟩ := d.tokens_eq_concat
  have hlexes := shownAs_of_dataWithin hd [] [] hwritable ⟨by simp, by simp⟩ [] delimits_nil
  rw [hks] at hlexes
  obtain ⟨ts, htokens, hts⟩ := tokenize_of_lexes hsource hc hlexes hk
  rw [parseExpression_of_tokens htokens]
  refine (singleExpression_of_tokens _ hwritable.plain 0 1 ?_).1 ?_
  · rw [hts, hks]
    rfl
  · have hscopes := scopes_le hd
    rw [maxShownNesting] at hscopes
    rw [maxNesting]
    omega

/-- A value of truth values, integers, texts, lists and dicts, with at most 64 containers inside
each other, is shown as an expression. In every state its value stands for the same tree, and the
lists and dicts that were there before are the same. -/
theorem reprValue_readBack (hd : dataWithin h 64 v = some d) (hwritable : d.Writable) :
    ∃ e, parseExpression (reprValue h v) = .ok e ∧
      ∀ env s, ∃ v' s', evaluate env e s = (.ok v', s') ∧ dataWithin s'.heap 64 v' = some d ∧
        s.heap.Extends s'.heap := by
  refine ⟨d.expr, parseExpression_reprValue hd hwritable, fun env s => ?_⟩
  obtain ⟨v', s', heval, hext, hd'⟩ := recreates_of_dataWithin hd hwritable env (callHere env s) s
  exact ⟨v', s', heval, hd', hext⟩

/-- A dict that holds the same list under two keys, with a text that is shown in double quotes. -/
theorem reprValue_readBack_shared :
    let h : Heap := ⟨#[#[.bool true, .int (-1), .str "it's\n"]],
      #[[("k", .list ⟨0⟩), ("l", .list ⟨0⟩)]], #[]⟩
    let items : Data := .list [.bool true, .int (-1), .str "it's\n"]
    ∃ e, parseExpression (reprValue h (.dict ⟨0⟩)) = .ok e ∧
      ∀ env s, ∃ v' s', evaluate env e s = (.ok v', s') ∧
        dataWithin s'.heap 64 v' = some (.dict [("k", items), ("l", items)]) ∧
        s.heap.Extends s'.heap := by
  intro h items
  have hitems : items.Writable := by
    refine .list _ ?_
    simp only [List.forall_mem_cons, List.not_mem_nil, false_imp_iff, implies_true, and_true]
    exact ⟨.bool true, .int (-1) (by decide), .str _⟩
  refine reprValue_readBack rfl (.dict _ ?_ (by decide))
  simpa using hitems

end NoteShell.Script
