import Mathlib.Algebra.Ring.Nat
import Mathlib.Data.List.Forall2
import Mathlib.Tactic.Common
import NoteShell.Proofs.Text.Occurrences
import NoteShell.Proofs.Text.Trimming
import NoteShell.Table.Markdown
import NoteShell.Table.Read

/-!
# The shape of tables in Markdown

A table is written as one line for its header, one below it and one for each row, all of the same
length. Cells are written as they are, with blanks around them. A pipe or a line feed in a cell
therefore cannot be told from those that the table is written with, and adds to their number.

## Main definitions

* `Fits` : the columns of a layout are as wide as the cells of a line.
* `countIn` : how often a character stands in some texts.

## Main results

* `length_rowLine`, `count_rowLine`, `splitOn_rowLine` : the line of a row.
* `fits_header`, `fits_row` : the columns of a table are wide enough.
* `markdown_shape` : the lines of a table, and the pipes in them.
* `markdown_shape_broken` : tables that a pipe or a line feed breaks.
-/

namespace NoteShell

open NoteShell.Decimal NoteShell.Text

variable {t : Table} {c : ColumnLayout} {layout : List ColumnLayout} {cell : String}
  {cells row : List String} {x : Char}

/-- How often a character stands in some texts. -/
def countIn (x : Char) (texts : List String) : Nat := (texts.map fun s => s.toList.count x).sum

/-- The columns of a layout are as wide as the cells of a line. -/
def Fits (layout : List ColumnLayout) (cells : List String) : Prop :=
  List.Forall₂ (fun c cell => cell.length ≤ c.width) layout cells

/-! ### Cells -/

namespace ColumnLayout

/-- The blanks around a cell. -/
theorem exists_toList_pad (c : ColumnLayout) (cell : String) :
    ∃ before after, before + cell.length + after = max c.width cell.length ∧
      (c.pad cell).toList =
        List.replicate before ' ' ++ cell.toList ++ List.replicate after ' ' := by
  rw [pad]
  split_ifs
  · exact ⟨c.width - cell.length, 0, by omega, by simp⟩
  · exact ⟨0, c.width - cell.length, by omega, by simp⟩

/-- A cell as written, up to the pipe. -/
def paddedCell (c : ColumnLayout) (cell : String) : List Char := ' ' :: (c.pad cell).toList ++ [' ']

theorem toList_cellText (c : ColumnLayout) (cell : String) :
    (c.cellText cell).toList = c.paddedCell cell ++ ['|'] := by
  simp [cellText, paddedCell]

theorem length_cellText (h : cell.length ≤ c.width) : (c.cellText cell).length = c.width + 3 := by
  obtain ⟨before, after, hwidth, hpad⟩ := c.exists_toList_pad cell
  rw [Nat.max_eq_left h] at hwidth
  rw [← String.length_toList, toList_cellText, paddedCell, hpad]
  simp only [List.length_append, List.length_cons, List.length_replicate, String.length_toList,
    List.length_nil]
  omega

/-- No characters but blanks are added to a cell. -/
theorem count_paddedCell (hx : x ≠ ' ') (c : ColumnLayout) (cell : String) :
    (c.paddedCell cell).count x = cell.toList.count x := by
  obtain ⟨before, after, -, hpad⟩ := c.exists_toList_pad cell
  simp [paddedCell, hpad, List.count_replicate, hx.symm]

theorem length_ruleText (c : ColumnLayout) : c.ruleText.length = c.width + 3 := by
  rw [ruleText, ← String.length_toList]
  split_ifs <;> simp

theorem count_ruleText (hdash : x ≠ '-') (hcolon : x ≠ ':') (c : ColumnLayout) :
    c.ruleText.toList.count x = ['|'].count x := by
  rw [ruleText]
  split_ifs <;> simp [List.count_replicate, List.count_cons, hdash.symm, hcolon.symm]

end ColumnLayout

theorem ColumnLayout.trimChars_paddedCell (c : ColumnLayout) (cell : String) :
    trimChars (c.paddedCell cell) = (trim cell).toList := by
  obtain ⟨before, after, -, hpad⟩ := c.exists_toList_pad cell
  have hcell : c.paddedCell cell =
      List.replicate (before + 1) ' ' ++ cell.toList ++ List.replicate (after + 1) ' ' := by
    rw [paddedCell, hpad, List.replicate_succ, List.replicate_succ']
    simp
  have hblank (n : Nat) : ∀ x ∈ List.replicate n ' ', isBlank x = true :=
    fun _ hx => (List.eq_of_mem_replicate hx) ▸ rfl
  rw [hcell, trimChars_append_blanks (hblank _) (hblank _), trim, trimWhile, String.toList_ofList,
    trimChars]

/-! ### Lines -/

theorem addsUp_count (x : Char) : AddsUp fun s => s.toList.count x := by
  intro s t
  simp only [String.toList_append, List.count_append]

/-- The size of a line is that of its parts. -/
theorem size_line {size : String → Nat} (hsize : AddsUp size)
    (parts : List String) : size ("|" ++ join "" parts) = size "|" + (parts.map size).sum := by
  rw [hsize, hsize.join, hsize.empty, Nat.zero_mul, Nat.add_zero]

/-- The length of the lines with the given layout. -/
def lineLength (layout : List ColumnLayout) : Nat := (layout.map fun c => c.width + 3).sum + 1

theorem length_rowLine (h : Fits layout cells) :
    (rowLine layout cells).length = lineLength layout := by
  rw [rowLine, size_line addsUp_length, lineLength, Nat.add_comm]
  congr 1
  induction h with
  | nil => rfl
  | cons hcell _ ih =>
    rw [List.zipWith_cons_cons, List.map_cons, List.sum_cons, List.map_cons, List.sum_cons, ih,
      ColumnLayout.length_cellText hcell]

/-- Besides the pipe before each cell and after the last one, what is in a line is in its cells. -/
theorem count_rowLine (hx : x ≠ ' ') (h : Fits layout cells) :
    (rowLine layout cells).toList.count x =
      countIn x cells + ['|'].count x * (layout.length + 1) := by
  rw [rowLine, size_line (addsUp_count x), Nat.mul_succ, countIn, ← Nat.add_assoc, Nat.add_comm]
  congr 1
  induction h with
  | nil => rfl
  | cons _ _ ih =>
    rw [List.zipWith_cons_cons, List.map_cons, List.sum_cons, List.map_cons, List.sum_cons, ih,
      ColumnLayout.toList_cellText, List.count_append, ColumnLayout.count_paddedCell hx,
      List.length_cons, Nat.mul_succ]
    omega

/-- The line below the header. -/
def ruleLine (layout : List ColumnLayout) : String :=
  "|" ++ join "" (layout.map ColumnLayout.ruleText)

theorem length_ruleLine (layout : List ColumnLayout) :
    (ruleLine layout).length = lineLength layout := by
  rw [ruleLine, size_line addsUp_length, lineLength, Nat.add_comm, List.map_map]
  congr 3
  exact funext ColumnLayout.length_ruleText

theorem count_ruleLine (hdash : x ≠ '-') (hcolon : x ≠ ':') (layout : List ColumnLayout) :
    (ruleLine layout).toList.count x = ['|'].count x * (layout.length + 1) := by
  have hrule : layout.map ((fun s => s.toList.count x) ∘ ColumnLayout.ruleText) =
      List.replicate layout.length (['|'].count x) := by
    rw [← List.map_const']
    exact List.map_congr_left fun c _ => c.count_ruleText hdash hcolon
  rw [ruleLine, size_line (addsUp_count x), List.map_map, hrule,
    List.sum_replicate_nat, Nat.mul_succ, Nat.add_comm, Nat.mul_comm]
  rfl

theorem toList_join_empty (parts : List String) :
    (join "" parts).toList = (parts.map String.toList).flatten := by
  rw [join, String.toList_intercalate]
  induction parts with
  | nil => rfl
  | cons p parts ih =>
    by_cases h : parts.map String.toList = []
    · rw [List.map_cons, h, List.intercalate_singleton, List.flatten_singleton]
    · rw [List.map_cons, List.intercalate_cons_of_ne_nil h, ih, List.flatten_cons,
        String.toList_empty, List.append_nil]

/-- The line of a row is its cells, with pipes between them and at both ends. -/
theorem toList_rowLine (layout : List ColumnLayout) (cells : List String) :
    (rowLine layout cells).toList =
      ['|'].intercalate ([] :: List.zipWith ColumnLayout.paddedCell layout cells ++ [[]]) := by
  rw [intercalate_append _ _ (List.cons_ne_nil _ _), List.intercalate_singleton,
    List.append_nil, rowLine,
    String.toList_append, toList_join_empty, List.map_zipWith, List.map_cons, List.flatten_cons,
    List.map_zipWith]
  simp only [ColumnLayout.toList_cellText]
  rfl

theorem countIn_append (x : Char) (texts texts' : List String) :
    countIn x (texts ++ texts') = countIn x texts + countIn x texts' := by
  rw [countIn, List.map_append, List.sum_append, countIn, countIn]

theorem countIn_flatten (x : Char) (rows : List (List String)) :
    countIn x rows.flatten = (rows.map (countIn x)).sum := by
  rw [countIn, List.map_flatten, List.sum_flatten, List.map_map]
  rfl

theorem countIn_eq_zero_iff : countIn x cells = 0 ↔ ∀ cell ∈ cells, x ∉ cell.toList := by
  rw [countIn, List.sum_eq_zero_iff_forall_eq_nat, List.forall_mem_map]
  simp only [List.count_eq_zero]

theorem pipe_not_mem_paddedCells (h : Fits layout cells) (hcells : countIn '|' cells = 0) :
    ∀ cs ∈ List.zipWith ColumnLayout.paddedCell layout cells, '|' ∉ cs := by
  rw [countIn_eq_zero_iff] at hcells
  induction h with
  | nil => simp
  | cons _ _ ih =>
    rw [List.forall_mem_cons] at hcells
    rw [List.zipWith_cons_cons, List.forall_mem_cons]
    refine ⟨?_, ih hcells.2⟩
    rw [← List.count_eq_zero, ColumnLayout.count_paddedCell (by decide), List.count_eq_zero]
    exact hcells.1

theorem map_trimChars_paddedCells (h : Fits layout cells) :
    (List.zipWith ColumnLayout.paddedCell layout cells).map trimChars =
      (cells.map trim).map String.toList := by
  induction h with
  | nil => rfl
  | cons _ _ ih =>
    rw [List.zipWith_cons_cons, List.map_cons, ih, ColumnLayout.trimChars_paddedCell, List.map_cons,
      List.map_cons]

/-- The cells of a line stand between its pipes. -/
theorem splitOn_rowLine (h : Fits layout cells) (hcells : countIn '|' cells = 0) :
    ((rowLine layout cells).toList.splitOn '|').map trimChars =
      [] :: (cells.map trim).map String.toList ++ [[]] := by
  have hpieces : ∀ cs ∈ [] :: List.zipWith ColumnLayout.paddedCell layout cells ++ [[]],
      '|' ∉ cs := by
    rw [List.forall_mem_append, List.forall_mem_cons, List.forall_mem_singleton]
    exact ⟨⟨List.not_mem_nil, pipe_not_mem_paddedCells h hcells⟩, List.not_mem_nil⟩
  rw [toList_rowLine, List.splitOn_intercalate '|' hpieces (List.cons_ne_nil _ _), List.map_append,
    List.map_cons, map_trimChars_paddedCells h]
  rfl

/-! ### Widths -/

theorem le_columnWidth (h : cell ∈ cells) : cell.length ≤ columnWidth cells := by
  have hfold (cells : List String) (n : Nat) :
      n ≤ cells.foldl (fun width cell => max width cell.length) n ∧
        ∀ cell ∈ cells, cell.length ≤ cells.foldl (fun width cell => max width cell.length) n := by
    induction cells generalizing n with
    | nil => exact ⟨Nat.le_refl n, nofun⟩
    | cons first cells ih =>
      obtain ⟨hstart, hcells⟩ := ih (max n first.length)
      rw [List.foldl_cons, List.forall_mem_cons]
      exact ⟨by omega, by omega, hcells⟩
  exact (hfold cells minColumnWidth).2 cell h

theorem fits_layoutFrom_headers (t : Table) (n : Nat) (headers : List String) :
    Fits (layoutFrom t n headers) headers := by
  induction headers generalizing n with
  | nil => exact .nil
  | cons header rest ih => exact .cons (le_columnWidth List.mem_cons_self) (ih (n + 1))

theorem fits_layoutFrom_row (hrow : row ∈ t.rows) (n : Nat) (headers : List String)
    (hlength : row.length = n + headers.length) :
    Fits (layoutFrom t n headers) (row.drop n) := by
  induction headers generalizing n with
  | nil =>
    rw [List.length_nil, Nat.add_zero] at hlength
    rw [List.drop_eq_nil_of_le (Nat.le_of_eq hlength)]
    exact .nil
  | cons header rest ih =>
    rw [List.length_cons] at hlength
    have hn : n < row.length := by omega
    rw [List.drop_eq_getElem_cons hn]
    refine .cons (le_columnWidth (List.mem_cons_of_mem _ ?_)) (ih (n + 1) (by omega))
    refine List.mem_map.mpr ⟨row, hrow, ?_⟩
    rw [List.getD_eq_getElem?_getD, List.getElem?_eq_getElem hn, Option.getD_some]

theorem fits_header (t : Table) : Fits t.layout ("" :: t.headers) :=
  .cons (Nat.zero_le _) (fits_layoutFrom_headers t 0 t.headers)

theorem fits_row {number : String} (hnumber : number ∈ t.rowNumbers) (hrow : row ∈ t.rows) :
    Fits t.layout (number :: row) := by
  refine .cons (le_columnWidth hnumber) ?_
  have hfits := fits_layoutFrom_row hrow 0 t.headers (by rw [t.width_eq row hrow, Nat.zero_add])
  rwa [List.drop_zero] at hfits

theorem length_layout (t : Table) : t.layout.length = t.headers.length + 1 := by
  rw [(fits_header t).length_eq, List.length_cons]

/-! ### Tables -/

theorem isDigit_of_mem_natText {n : Nat} (hx : x ∈ (natText n).toList) : x.isDigit = true := by
  rw [natText, String.toList_ofList] at hx
  exact Nat.isDigit_of_mem_toDigits (by decide) (by decide) hx

theorem count_natText (hx : x.isDigit = false) (n : Nat) : (natText n).toList.count x = 0 :=
  List.count_eq_zero.mpr fun hmem =>
    Bool.false_ne_true (hx.symm.trans (isDigit_of_mem_natText hmem))

/-- The rows of a table with their numbers in front. -/
def Table.numberedRows (t : Table) : List (List String) :=
  List.zipWith (fun number row => number :: row) t.rowNumbers t.rows

theorem lines_eq (t : Table) :
    t.lines = rowLine t.layout ("" :: t.headers) :: ruleLine t.layout ::
      t.numberedRows.map (rowLine t.layout) := rfl

theorem length_numberedRows (t : Table) : t.numberedRows.length = t.rows.length := by
  rw [Table.numberedRows, List.length_zipWith, Table.rowNumbers, List.length_map, List.length_range,
    Nat.min_self]

theorem getElem?_numberedRows {i : Nat} (hrow : t.rows[i]? = some row) :
    t.numberedRows[i]? = some (natText i :: row) := by
  have hi : i < t.rows.length := (List.getElem?_eq_some_iff.mp hrow).1
  rw [Table.numberedRows, List.getElem?_zipWith, hrow, Table.rowNumbers, List.getElem?_map,
    List.getElem?_range hi]
  rfl

theorem exists_of_mem_numberedRows (h : cells ∈ t.numberedRows) :
    ∃ i row, row ∈ t.rows ∧ natText i ∈ t.rowNumbers ∧ cells = natText i :: row := by
  obtain ⟨i, hi⟩ := List.mem_iff_getElem?.mp h
  rw [Table.numberedRows, List.getElem?_zipWith_eq_some] at hi
  obtain ⟨number, row, hnumber, hrow, rfl⟩ := hi
  obtain ⟨n, -, rfl⟩ := List.mem_map.mp (List.mem_of_getElem? hnumber)
  exact ⟨n, row, List.mem_of_getElem? hrow, List.mem_of_getElem? hnumber, rfl⟩

theorem fits_numberedRow (h : cells ∈ t.numberedRows) : Fits t.layout cells := by
  obtain ⟨i, row, hrow, hnumber, rfl⟩ := exists_of_mem_numberedRows h
  exact fits_row hnumber hrow

theorem map_tail_numberedRows (t : Table) : t.numberedRows.map List.tail = t.rows := by
  refine List.ext_getElem? fun i => ?_
  rw [List.getElem?_map]
  cases hrow : t.rows[i]? with
  | none =>
    rw [List.getElem?_eq_none_iff, ← length_numberedRows, ← List.getElem?_eq_none_iff] at hrow
    rw [hrow, Option.map_none]
  | some row => rw [getElem?_numberedRows hrow, Option.map_some, List.tail_cons]

/-- No number of a row has a character that is no digit. -/
theorem countIn_numberedRow (hx : x.isDigit = false) (h : cells ∈ t.numberedRows) :
    countIn x cells = countIn x cells.tail := by
  obtain ⟨i, row, -, -, rfl⟩ := exists_of_mem_numberedRows h
  rw [countIn, List.map_cons, List.sum_cons, count_natText hx, Nat.zero_add,
    List.tail_cons, countIn]

theorem count_numberedRow (hx : x ≠ ' ') (hdigit : x.isDigit = false) (h : cells ∈ t.numberedRows) :
    (rowLine t.layout cells).toList.count x =
      countIn x cells.tail + ['|'].count x * (t.headers.length + 2) := by
  rw [count_rowLine hx (fits_numberedRow h), countIn_numberedRow hdigit h, length_layout]

theorem count_headerLine (hx : x ≠ ' ') (t : Table) :
    (rowLine t.layout ("" :: t.headers)).toList.count x =
      countIn x t.headers + ['|'].count x * (t.headers.length + 2) := by
  have hcells : countIn x ("" :: t.headers) = countIn x t.headers := Nat.zero_add _
  rw [count_rowLine hx (fits_header t), hcells, length_layout]

theorem length_of_mem_lines {line : String} (h : line ∈ t.lines) :
    line.length = lineLength t.layout := by
  rw [lines_eq, List.mem_cons, List.mem_cons, List.mem_map] at h
  rcases h with rfl | rfl | ⟨cells, hcells, rfl⟩
  · exact length_rowLine (fits_header t)
  · exact length_ruleLine t.layout
  · exact length_rowLine (fits_numberedRow hcells)

/-- Every line feed in a cell stands in the line of its row. -/
theorem sum_count_lines (t : Table) :
    (t.lines.map fun line => line.toList.count '\n').sum =
      countIn '\n' (t.headers ++ t.rows.flatten) := by
  have hpipe : ['|'].count '\n' = 0 := rfl
  have hrows : (t.numberedRows.map (rowLine t.layout)).map (fun line => line.toList.count '\n') =
      (t.numberedRows.map List.tail).map (countIn '\n') := by
    rw [List.map_map, List.map_map]
    refine List.map_congr_left fun cells hcells => ?_
    rw [Function.comp_apply, Function.comp_apply, count_numberedRow (by decide) rfl hcells, hpipe,
      Nat.zero_mul, Nat.add_zero]
  rw [lines_eq, List.map_cons, List.map_cons, List.sum_cons, List.sum_cons,
    count_headerLine (by decide), count_ruleLine (by decide) (by decide), hrows,
    map_tail_numberedRows, hpipe, Nat.zero_mul, Nat.zero_mul, Nat.zero_add, Nat.add_zero,
    countIn_append, countIn_flatten]

theorem toList_toMarkdown (t : Table) :
    t.toMarkdown.toList = ['\n'].intercalate (t.lines.map String.toList) := by
  rw [Table.toMarkdown, join, String.toList_intercalate]
  rfl

theorem count_toMarkdown (t : Table) :
    t.toMarkdown.toList.count '\n' =
      t.rows.length + 1 + countIn '\n' (t.headers ++ t.rows.flatten) := by
  have hjoin := (addsUp_count '\n').join "\n" t.lines
  have hlength : t.lines.length - 1 = t.rows.length + 1 := by
    rw [lines_eq, List.length_cons, List.length_cons, List.length_map, length_numberedRows]
    rfl
  rw [sum_count_lines, hlength] at hjoin
  exact hjoin.trans (by rw [Nat.add_comm]; exact congrArg (· + _) (Nat.one_mul _))

/-- A table has one line for its header, one below it and one for each row, all of the same length,
and a pipe in front of each cell and after the last one in each of them. Line feeds in cells break
lines, so that these are the lines of the text if there are none. Pipes in cells add to those of
their line, and the cells can be read back from the line of a row, blank space around them apart, if
there are none. -/
theorem markdown_shape (t : Table) :
    (∃ n, ∀ line ∈ t.lines, line.length = n) ∧
    (t.toMarkdown.toList.splitOn '\n').length =
      t.rows.length + 2 + countIn '\n' (t.headers ++ t.rows.flatten) ∧
    (countIn '\n' (t.headers ++ t.rows.flatten) = 0 →
      t.toMarkdown.toList.splitOn '\n' = t.lines.map String.toList) ∧
    ∃ header rule rows, t.lines = header :: rule :: rows ∧ rows.length = t.rows.length ∧
      header.toList.count '|' = countIn '|' t.headers + (t.headers.length + 2) ∧
      rule.toList.count '|' = t.headers.length + 2 ∧
      ∀ i row, t.rows[i]? = some row → ∃ line, rows[i]? = some line ∧
        line.toList.count '|' = countIn '|' row + (t.headers.length + 2) ∧
        (countIn '|' row = 0 → (line.toList.splitOn '|').map trimChars =
          [] :: (natText i :: row.map trim).map String.toList ++ [[]]) := by
  refine ⟨⟨_, fun line => length_of_mem_lines⟩, ?feeds, fun hfeeds => ?unbroken, _, _, _,
    lines_eq t,
    ?rows, ?header, ?rule, fun i row hrow => ⟨rowLine t.layout (natText i :: row), ?line, ?pipes,
    fun hpipes => ?cells⟩⟩
  case feeds =>
    rw [length_splitOn, count_toMarkdown]
    omega
  case unbroken =>
    rw [toList_toMarkdown]
    refine List.splitOn_intercalate '\n' ?_ (by simp [lines_eq])
    rw [← sum_count_lines, List.sum_eq_zero_iff_forall_eq_nat, List.forall_mem_map] at hfeeds
    exact List.forall_mem_map.mpr fun line hline => List.count_eq_zero.mp (hfeeds line hline)
  case rows => rw [List.length_map, length_numberedRows]
  case header =>
    rw [count_headerLine (by decide)]
    exact congrArg _ (Nat.one_mul _)
  case rule =>
    rw [count_ruleLine (by decide) (by decide), length_layout]
    exact Nat.one_mul _
  case line => rw [List.getElem?_map, getElem?_numberedRows hrow, Option.map_some]
  case pipes =>
    rw [count_numberedRow (by decide) rfl (List.mem_of_getElem? (getElem?_numberedRows hrow))]
    exact congrArg _ (Nat.one_mul _)
  case cells =>
    have hmem := List.mem_of_getElem? (getElem?_numberedRows hrow)
    have hnumber : trim (natText i) = natText i :=
      trim_of_forall fun c hc => isBlank_of_isDigit (isDigit_of_mem_natText hc)
    rw [splitOn_rowLine (fits_numberedRow hmem) ((countIn_numberedRow rfl hmem).trans hpipes),
      List.map_cons, hnumber]

/-- A table of a delimited text with a pipe in one row, and blanks in the other one. -/
theorem markdown_shape_blanks :
    ∃ t header rule line₀ line₁, tableOfDelimited ',' "a,b\nx|y,\n1, z " = .ok t ∧
      t.rows = [["x|y", ""], ["1", " z "]] ∧ t.lines = [header, rule, line₀, line₁] ∧
      t.toMarkdown.toList.splitOn '\n' = t.lines.map String.toList ∧
      header.toList.count '|' = 4 ∧ rule.toList.count '|' = 4 ∧ line₀.toList.count '|' = 5 ∧
      (line₁.toList.splitOn '|').map trimChars = [[], ['1'], ['1'], ['z'], []] := by
  let t : Table := ⟨["a", "b"], [["x|y", ""], ["1", " z "]], by decide⟩
  obtain ⟨-, -, hunbroken, header, rule, rows, hlines, hlength, hheader, hrule, hrows⟩ :=
    markdown_shape t
  obtain ⟨line₀, hline₀, hpipes, -⟩ := hrows 0 ["x|y", ""] rfl
  obtain ⟨line₁, hline₁, -, hcells⟩ := hrows 1 ["1", " z "] rfl
  obtain ⟨first, second, rfl⟩ := List.length_eq_two.mp hlength
  cases hline₀
  cases hline₁
  exact ⟨t, header, rule, line₀, line₁, rfl, rfl, hlines, hunbroken (by decide),
    hheader.trans (by decide), hrule, hpipes.trans (by decide),
    (hcells (by decide)).trans (by decide)⟩

/-- A pipe in a header is one more than its line should have, and a line feed breaks the line in
two. -/
theorem markdown_shape_broken :
    (∃ t, tableOfDelimited ',' "a|b" = .ok t ∧ t.headers = ["a|b"] ∧
      ¬ ∀ line ∈ t.toMarkdown.toList.splitOn '\n', line.count '|' = t.headers.length + 2) ∧
    ∃ t, tableOfDelimited ',' "\"a\nb\"" = .ok t ∧ t.rows = [] ∧
      (t.toMarkdown.toList.splitOn '\n').length ≠ t.rows.length + 2 := by
  refine ⟨⟨⟨["a|b"], [], nofun⟩, rfl, rfl, by decide +kernel⟩,
    ⟨⟨["a\nb"], [], nofun⟩, rfl, rfl, ?_⟩⟩
  rw [length_splitOn, count_toMarkdown]
  decide

end NoteShell
