import NoteShell.Proofs.Lexing.Literal
import NoteShell.Proofs.Parsing.RoundTrip
import NoteShell.Proofs.Values.Data
import NoteShell.Script.Repr

/-!
# Trees as expressions

A tree of numbers, texts, lists and dicts is written as an expression. A value that stands for the
tree is shown as a text with the tokens of this expression.

## Main definitions

* `Data.expr` : the expression that a tree is written as.
* `Data.Writable` : trees that an expression can be written for.

## Main results

* `Data.Writable.plain` : the expression can be written as tokens.
* `lexes_reprWithin` : the tokens of a value as it is shown.
-/

namespace NoteShell.Script

open NoteShell.Decimal NoteShell.Grammar NoteShell.Text

/-! ### Expressions -/

mutual

/-- The expression that a tree is written as. -/
def Data.expr : Data → Expr
  | .none => .none
  | .bool b => .bool b
  | .int i => if i < 0 then .unary .negate (.int (-i)) else .int i
  | .str s => .str s
  | .list items => .list (itemExprs items)
  | .dict entries => .dict (entryExprs entries)

/-- The expressions of several trees. -/
def itemExprs : List Data → List Expr
  | [] => []
  | item :: rest => item.expr :: itemExprs rest

/-- The expressions of the keys and values of a dict. -/
def entryExprs : List (String × Data) → List (Expr × Expr)
  | [] => []
  | (key, value) :: rest => (.str key, value.expr) :: entryExprs rest

end

theorem itemExprs_eq_map (items : List Data) : itemExprs items = items.map Data.expr := by
  induction items with
  | nil => rfl
  | cons item rest ih => rw [itemExprs, ih, List.map_cons]

theorem entryExprs_eq_map (entries : List (String × Data)) :
    entryExprs entries = entries.map fun p => (.str p.1, p.2.expr) := by
  induction entries with
  | nil => rfl
  | cons p rest ih => rw [entryExprs, ih, List.map_cons]

/-- Trees that an expression can be written for: all but the least integer, whose digits are no
number of 64 bits, in dicts with distinct keys. -/
inductive Data.Writable : Data → Prop
  | none : Writable .none
  | bool (b : Bool) : Writable (.bool b)
  | int (i : Int64) (hi : i ≠ Int64.minValue) : Writable (.int i)
  | str (s : String) : Writable (.str s)
  | list (items : List Data) (hitems : ∀ d ∈ items, Writable d) : Writable (.list items)
  | dict (entries : List (String × Data)) (hvalues : ∀ p ∈ entries, Writable p.2)
      (hkeys : (entries.map (·.1)).Nodup) : Writable (.dict entries)

/-- An integer other than the least one can be negated. -/
theorem toInt_neg_of_ne {i : Int64} (hi : i ≠ Int64.minValue) : (-i).toInt = -i.toInt := by
  have hne : i.toInt ≠ -2 ^ 63 :=
    fun h => hi (Int64.toInt_inj.mp (h.trans Int64.toInt_minValue.symm))
  have hlow := i.le_toInt
  have hhigh := i.toInt_lt
  rw [Int64.toInt_neg, Int.bmod_eq_of_le] <;> omega

theorem Data.Writable.plain {d : Data} (hd : d.Writable) : d.expr.Plain := by
  induction hd with
  | none => exact .none
  | bool b => exact .bool b
  | int i hi =>
    rw [expr]
    split_ifs with hneg
    · refine .unary _ _ (.int _ (Int64.le_iff_toInt_le.mpr ?_))
      rw [Int64.lt_iff_toInt_lt] at hneg
      rw [toInt_neg_of_ne hi]
      simp only [Int64.toInt_zero] at hneg ⊢
      omega
    · exact .int i (Int64.not_lt.mp hneg)
  | str s => exact .str s
  | list items _ ih =>
    rw [expr, itemExprs_eq_map]
    exact .list _ (List.forall_mem_map.mpr ih)
  | dict entries _ _ ih =>
    rw [expr, entryExprs_eq_map]
    exact .dict _ (List.forall_mem_map.mpr fun p _ => .str p.1) (List.forall_mem_map.mpr ih)

/-- The last token of an expression ends no line. -/
theorem Data.tokens_eq_concat (d : Data) :
    ∃ ks k, d.expr.tokens = ks ++ [k] ∧ k.isNewline = false := by
  cases d with
  | int i =>
    rw [expr]
    split_ifs
    · exact ⟨[.symbol .minus], .int (-i), rfl, rfl⟩
    · exact ⟨[], _, rfl, rfl⟩
  | list items => exact ⟨_ :: _, .symbol .closeBracket, rfl, rfl⟩
  | dict entries => exact ⟨_ :: _, .symbol .closeBrace, rfl, rfl⟩
  | _ => exact ⟨[], _, rfl, rfl⟩

variable {h : Heap} {n : Nat} {v : Value} {d d' : Data}

/-- A container takes two levels of a parser, and a sign one more. -/
theorem scopes_le (hd : dataWithin h n v = some d) : d.expr.scopes ≤ 2 * n + 1 := by
  refine dataWithin_induction (motive := fun n _ d => d.expr.scopes ≤ 2 * n + 1)
    ?none ?bool ?int ?str ?list ?dict hd
  case int =>
    intro n i
    rw [Data.expr]
    split_ifs
    · have hscopes : (Expr.unary .negate (.int (-i))).scopes = 1 := rfl
      omega
    · exact Nat.zero_le _
  case list =>
    intro n r values items _ _ ih
    have hitems : Expr.itemScopes (itemExprs items) ≤ 2 * n + 2 := by
      rw [itemExprs_eq_map]
      refine itemScopes_le_iff.mp (List.forall_mem_map.mpr (forall_mem_right ih fun v d hd => ?_))
      omega
    rw [Data.expr, Expr.scopes]
    omega
  case dict =>
    intro n r entries data _ _ ih
    have hentries : Expr.entryScopes (entryExprs data) ≤ 2 * n + 2 := by
      rw [entryExprs_eq_map]
      refine entryScopes_le_iff.mp (List.forall_mem_map.mpr (forall_mem_right ih fun e p hp => ?_))
      have hkey : (Expr.str p.1).scopes = 0 := rfl
      dsimp only
      omega
    rw [Data.expr, Expr.scopes]
    omega
  all_goals
    intros
    exact Nat.zero_le _

/-! ### Tokens of a value as it is shown -/

/-- A tree is smaller than those of the containers that are open. A value that stands for it is
therefore none of these containers, and no ellipsis is shown for it. -/
structure Inside (h : Heap) (openLists : List ListRef) (openDicts : List DictRef) (d : Data) :
    Prop where
  lists : ∀ r ∈ openLists, ∀ m d', dataWithin h m (.list r) = some d' → sizeOf d < sizeOf d'
  dicts : ∀ r ∈ openDicts, ∀ m d', dataWithin h m (.dict r) = some d' → sizeOf d < sizeOf d'

variable {openLists : List ListRef} {openDicts : List DictRef}

theorem Inside.not_mem_lists {r : ListRef} (hin : Inside h openLists openDicts d)
    (hd : dataWithin h n (.list r) = some d) : r ∉ openLists :=
  fun hr => Nat.lt_irrefl _ (hin.lists r hr n d hd)

theorem Inside.not_mem_dicts {r : DictRef} (hin : Inside h openLists openDicts d)
    (hd : dataWithin h n (.dict r) = some d) : r ∉ openDicts :=
  fun hr => Nat.lt_irrefl _ (hin.dicts r hr n d hd)

theorem Inside.smaller (hin : Inside h openLists openDicts d') (hlt : sizeOf d < sizeOf d') :
    Inside h openLists openDicts d :=
  ⟨fun r hr m e he => Nat.lt_trans hlt (hin.lists r hr m e he),
    fun r hr m e he => Nat.lt_trans hlt (hin.dicts r hr m e he)⟩

/-- An item of a list is smaller than the list, which is open while the item is shown. -/
theorem Inside.item {r : ListRef} {items : List Data}
    (hin : Inside h openLists openDicts (.list items))
    (hr : dataWithin h n (.list r) = some (.list items)) (hd : d ∈ items) :
    Inside h (r :: openLists) openDicts d := by
  have hlt : sizeOf d < sizeOf (Data.list items) := by
    have hmem := List.sizeOf_lt_of_mem hd
    simp only [Data.list.sizeOf_spec]
    omega
  refine ⟨List.forall_mem_cons.mpr ⟨fun m e he => ?_, (hin.smaller hlt).lists⟩,
    (hin.smaller hlt).dicts⟩
  exact dataWithin_unique hr he ▸ hlt

/-- A value of a dict is smaller than the dict, which is open while the value is shown. -/
theorem Inside.value {r : DictRef} {entries : List (String × Data)} {p : String × Data}
    (hin : Inside h openLists openDicts (.dict entries))
    (hr : dataWithin h n (.dict r) = some (.dict entries)) (hp : p ∈ entries) :
    Inside h openLists (r :: openDicts) p.2 := by
  have hlt : sizeOf p.2 < sizeOf (Data.dict entries) := by
    have hmem := List.sizeOf_lt_of_mem hp
    obtain ⟨key, d⟩ := p
    simp only [Data.dict.sizeOf_spec, Prod.mk.sizeOf_spec] at hmem ⊢
    omega
  refine ⟨(hin.smaller hlt).lists,
    List.forall_mem_cons.mpr ⟨fun m e he => ?_, (hin.smaller hlt).dicts⟩⟩
  exact dataWithin_unique hr he ▸ hlt

/-- Parts with commas between them. -/
theorem lexes_intercalate {parts : List (List Char)} {kss : List (List TokenKind)}
    (hparts : List.Forall₂ (fun cs ks => ∀ rest, Delimits rest → Lexes cs ks rest) parts kss)
    {rest : List Char} (hrest : Delimits rest) :
    Lexes (", ".toList.intercalate parts) (Expr.separated kss) rest := by
  induction hparts with
  | nil => exact lexes_nil rest
  | @cons cs ks parts kss hcs htail ih =>
    cases htail with
    | nil => simpa [Expr.separated] using hcs rest hrest
    | cons hcs' htail =>
      rw [List.intercalate_cons_cons, Expr.separated, List.append_assoc]
      refine (hcs _ (delimits_cons (c := ',') (by decide) _)).append ?_
      exact (lexes_symbol .comma _ rfl rfl).cons ((lexes_blank _).append ih)

/-- An integer in the range of a word is the word. -/
theorem int64?_toInt (i : Int64) : int64? i.toInt = some i := by
  have hlow := i.le_toInt
  have hhigh := i.toInt_lt
  rw [int64?, if_pos (by simp only [leastInt64, greatestInt64]; omega), Int64.ofInt_toInt]

/-- An integer as it is shown. -/
theorem lexes_intText {i : Int64} (hi : i ≠ Int64.minValue) {rest : List Char}
    (hrest : Delimits rest) : Lexes (intText i.toInt).toList (Data.int i).expr.tokens rest := by
  have hsign : i < 0 ↔ i.toInt < 0 := Int64.lt_iff_toInt_lt
  rw [intText, Data.expr]
  by_cases hneg : i.toInt < 0
  · have hword : int64? i.toInt.natAbs = some (-i) := by
      rw [Int.ofNat_natAbs_of_nonpos (by omega), ← toInt_neg_of_ne hi, int64?_toInt]
    rw [if_pos hneg, if_pos (hsign.mpr hneg), String.toList_append]
    have hdigits := lexes_natText hword hrest
    obtain ⟨d, ds, hds, hd⟩ := toDigits_eq_cons i.toInt.natAbs
    have hminus : Lexes ['-'] [.symbol .minus] ((natText i.toInt.natAbs).toList ++ rest) := by
      rw [natText, String.toList_ofList, hds]
      exact lexes_sign (.inl ⟨rfl, rfl⟩) hd (ds ++ rest)
    exact hminus.append hdigits
  · have hword : int64? i.toInt.natAbs = some i := by
      rw [Int.natAbs_of_nonneg (by omega), int64?_toInt]
    rw [if_neg hneg, if_neg (mt hsign.mp hneg)]
    exact lexes_natText hword hrest

/-- A text within brackets. -/
theorem lexes_enclosed (opening closing : Symbol) {o c : Char} (ho : isLoneSymbol o = true)
    (hopening : Symbol.atStart? [o] = some opening) (hc : c ∈ [',', ':', ']', '}', '+'])
    (hclone : isLoneSymbol c = true)
    (hclosing : Symbol.atStart? [c] = some closing) {cs : List Char} {ks : List TokenKind}
    (h : ∀ rest, Delimits rest → Lexes cs ks rest) (rest : List Char) :
    Lexes (o :: (cs ++ [c])) (.symbol opening :: (ks ++ [.symbol closing])) rest :=
  (lexes_symbol opening _ ho hopening).cons
    ((h _ (delimits_cons hc rest)).append (lexes_symbol closing rest hclone hclosing))

theorem lexes_none {rest : List Char} (hrest : Delimits rest) :
    Lexes "None".toList Data.none.expr.tokens rest := by
  have hname := lexes_word "None".toList (by simp) hrest
  rwa [String.ofList_toList] at hname

theorem lexes_bool (b : Bool) {rest : List Char} (hrest : Delimits rest) :
    Lexes (if b then "True" else "False").toList (Data.bool b).expr.tokens rest := by
  have hname := lexes_word (if b then "True" else "False").toList
    (by cases b <;> simp) hrest
  rwa [String.ofList_toList] at hname

theorem reprWithin_scalar (hlist : ∀ r, v ≠ .list r) (hdict : ∀ r, v ≠ .dict r) :
    reprWithin h n openLists openDicts v = scalarRepr h v := by
  rw [reprWithin]
  · exact fun r hr => absurd hr (hlist r)
  · exact fun r hr => absurd hr (hdict r)

theorem toList_reprWithin_list {r : ListRef} (hr : r ∉ openLists) :
    (reprWithin h (n + 1) openLists openDicts (.list r)).toList =
      '[' :: (", ".toList.intercalate ((h.items r).toList.map fun v =>
        (reprWithin h n (r :: openLists) openDicts v).toList) ++ [']']) := by
  simp only [reprWithin, List.contains_iff_mem, hr, if_false, String.toList_append,
    String.toList_intercalate, List.map_map]
  rfl

theorem toList_reprWithin_dict {r : DictRef} (hr : r ∉ openDicts) :
    (reprWithin h (n + 1) openLists openDicts (.dict r)).toList =
      '\x7b' :: (", ".toList.intercalate ((h.entries r).map fun e =>
        (quoted e.1).toList ++ ':' :: ' ' ::
          (reprWithin h n openLists (r :: openDicts) e.2).toList) ++ ['\x7d']) := by
  simp only [reprWithin, List.contains_iff_mem, hr, if_false, String.toList_append,
    String.toList_intercalate, List.map_map, Function.comp_def, List.append_assoc]
  rfl

/-- A value as it is shown inside open containers has the tokens of the expression of a tree. -/
def ShownAs (h : Heap) (n : Nat) (v : Value) (d : Data) : Prop :=
  ∀ openLists openDicts, d.Writable → Inside h openLists openDicts d → ∀ rest, Delimits rest →
    Lexes (reprWithin h n openLists openDicts v).toList d.expr.tokens rest

theorem shownAs_list {r : ListRef} {values : Array Value} {items : List Data}
    (hr : h.lists[r.index]? = some values)
    (hitems : List.Forall₂ (fun v d => dataWithin h n v = some d) values.toList items)
    (ih : List.Forall₂ (ShownAs h n) values.toList items) :
    ShownAs h (n + 1) (.list r) (.list items) := by
  intro openLists openDicts hwritable hin rest _
  have hwritable : ∀ d ∈ items, d.Writable := by
    cases hwritable
    assumption
  have hdata : dataWithin h (n + 1) (.list r) = some (.list items) :=
    dataWithin_list.mpr ⟨values, items, hr, rfl, hitems⟩
  have hparts : List.Forall₂ (fun cs ks => ∀ rest, Delimits rest → Lexes cs ks rest)
      (values.toList.map fun v => (reprWithin h n (r :: openLists) openDicts v).toList)
      (items.map fun d => d.expr.tokens) := by
    rw [List.forall₂_map_left_iff, List.forall₂_map_right_iff]
    refine (forall₂_and_mem (P := fun d => d.Writable ∧ Inside h (r :: openLists) openDicts d) ih
      fun d hd => ⟨hwritable d hd, hin.item hdata hd⟩).imp fun v d hvd => ?_
    exact hvd.1 _ _ hvd.2.1 hvd.2.2
  rw [toList_reprWithin_list (hin.not_mem_lists hdata), Heap.items_eq hr, Data.expr,
    itemExprs_eq_map, Expr.tokens, Expr.itemTokens_eq_map, List.map_map]
  exact lexes_enclosed .openBracket .closeBracket rfl rfl (by decide) rfl rfl
    (fun rest hrest => lexes_intercalate hparts hrest) rest

/-- A dict entry as it is shown. -/
theorem lexes_entry (key : String) {cs : List Char} {ks : List TokenKind} {rest : List Char}
    (h : Lexes cs ks rest) :
    Lexes ((quoted key).toList ++ ':' :: ' ' :: cs) (.str key :: .symbol .colon :: ks) rest :=
  (lexes_quoted key (delimits_cons (by decide) _)).append
    ((lexes_symbol .colon _ rfl rfl).cons ((lexes_blank _).append h))

theorem shownAs_dict {r : DictRef} {entries : Entries} {data : List (String × Data)}
    (hr : h.dicts[r.index]? = some entries)
    (hdata : SameKeys (fun v d => dataWithin h n v = some d) entries data)
    (ih : SameKeys (ShownAs h n) entries data) : ShownAs h (n + 1) (.dict r) (.dict data) := by
  intro openLists openDicts hwritable hin rest _
  have hwritable : ∀ p ∈ data, p.2.Writable := by
    cases hwritable
    assumption
  have htree : dataWithin h (n + 1) (.dict r) = some (.dict data) :=
    dataWithin_dict.mpr ⟨entries, data, hr, rfl, hdata⟩
  have hparts : List.Forall₂ (fun cs ks => ∀ rest, Delimits rest → Lexes cs ks rest)
      (entries.map fun e => (quoted e.1).toList ++ ':' :: ' ' ::
        (reprWithin h n openLists (r :: openDicts) e.2).toList)
      (data.map fun p => .str p.1 :: .symbol .colon :: p.2.expr.tokens) := by
    rw [List.forall₂_map_left_iff, List.forall₂_map_right_iff]
    refine (forall₂_and_mem
      (P := fun p => p.2.Writable ∧ Inside h openLists (r :: openDicts) p.2) ih
      fun p hp => ⟨hwritable p hp, hin.value htree hp⟩).imp fun e p hep rest hrest => ?_
    rw [hep.1.1]
    exact lexes_entry p.1 (hep.1.2 _ _ hep.2.1 hep.2.2 rest hrest)
  rw [toList_reprWithin_dict (hin.not_mem_dicts htree), Heap.entries_eq hr, Data.expr,
    entryExprs_eq_map, Expr.tokens, Expr.entryTokens_eq_map, List.map_map]
  exact lexes_enclosed .openBrace .closeBrace rfl rfl (by decide) rfl rfl
    (fun rest hrest => lexes_intercalate hparts hrest) rest

/-- The tokens of a value that stands for a tree. -/
theorem shownAs_of_dataWithin (hd : dataWithin h n v = some d) : ShownAs h n v d := by
  refine dataWithin_induction ?none ?bool ?int ?str ?list ?dict hd
  case none =>
    intro n openLists openDicts _ _ rest hrest
    rw [reprWithin_scalar (by simp) (by simp)]
    exact lexes_none hrest
  case bool =>
    intro n b openLists openDicts _ _ rest hrest
    rw [reprWithin_scalar (by simp) (by simp)]
    cases b
    · exact lexes_bool false hrest
    · exact lexes_bool true hrest
  case int =>
    intro n i openLists openDicts hwritable _ rest hrest
    rw [reprWithin_scalar (by simp) (by simp)]
    cases hwritable with
    | int _ hi => exact lexes_intText hi hrest
  case str =>
    intro n s openLists openDicts _ _ rest hrest
    rw [reprWithin_scalar (by simp) (by simp)]
    exact lexes_quoted s hrest
  case list => exact fun n r values items hr hitems ih => shownAs_list hr hitems ih
  case dict => exact fun n r entries data hr hdata ih => shownAs_dict hr hdata ih

end NoteShell.Script
