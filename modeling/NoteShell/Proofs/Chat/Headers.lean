import Mathlib.Tactic.Common
import NoteShell.Chat.ContextId
import NoteShell.Proofs.Text.Occurrences

/-!
# What comes after the header of a prompt

Where a prompt opens with a block between fences, its context id is looked for in the block. The
blank space after the opening fence may cross lines, and as many of them as it can: a block with a
character that is not blank begins at the line of the first such character, and ends at the first
fence after it. In a block of blank lines only, the closing fence is passed too if another one comes
later, and the id is then looked for in the text between the two.

## Main definitions

* `AllBlank` : a text is blank space.
* `IsFence` : a line is a fence.
* `IsUnfenced` : no line of a text, up to the last line feed in it, is a fence.
* `fencedPrompt` : a prompt that opens with a block.
* `idIn` : the context id that a part of a prompt names.

## Main results

* `blockBody?_fence`, `blockBody?_unfenced` : a block ends at the first fence.
* `blockStarts_blank_lines` : where a block can begin.
* `contextId?_fencedPrompt` : a block that bounds the search.
* `contextId?_blank_block` : a block of blank lines that does not.
* `contextId_block_bounds` : text after a block does not matter.
-/

namespace NoteShell.Chat

open NoteShell.Text

variable {line fence ws : List Char} {ls rest blanks : List (List Char)} {block text : String}

/-- The characters of some lines, with line feeds between them. -/
def unlines (ls : List (List Char)) : List Char := ['\n'].intercalate ls

/-- The lines of a text, in which no line feed is left. -/
def linesOf (text : String) : List (List Char) := text.toList.splitOn '\n'

/-- Whether there is only blank space in a text. -/
def AllBlank (cs : List Char) : Prop := ∀ c ∈ cs, isBlank c = true

instance (cs : List Char) : Decidable (AllBlank cs) := List.decidableBAll (isBlank · = true) cs

/-- The dashes of a fence. -/
def dashes : List Char := ['-', '-', '-']

/-- Whether a line is three dashes with only blank space after them. -/
def IsFence (line : List Char) : Prop := dashes <+: line ∧ AllBlank (line.drop 3)

instance (line : List Char) : Decidable (IsFence line) := inferInstanceAs (Decidable (_ ∧ _))

/-- Whether no line of a text that a line feed ends is a fence. -/
def IsUnfenced (text : String) : Prop := ∀ line ∈ (linesOf text).dropLast, ¬ IsFence line

instance (text : String) : Decidable (IsUnfenced text) :=
  List.decidableBAll (¬ IsFence ·) (linesOf text).dropLast

/-- A prompt that opens with a block between fences. -/
def fencedPrompt (block text : String) : String := "---\n" ++ block ++ "\n---\n" ++ text

/-- The context id that a part of a prompt names. -/
def idIn (header : List Char) : Option String :=
  (contextKeywords.findSome? fun keyword => firstId? keyword.toList header).map String.ofList

theorem contextId?_eq (prompt : String) : contextId? prompt = idIn (promptHeader prompt) := rfl

/-! ### Lines -/

theorem unlines_singleton (line : List Char) : unlines [line] = line := List.intercalate_singleton

theorem unlines_cons (line : List Char) (h : ls ≠ []) :
    unlines (line :: ls) = line ++ '\n' :: unlines ls := by
  rw [unlines, List.intercalate_cons_of_ne_nil h, List.append_assoc, unlines]
  rfl

theorem unlines_append (hls : ls ≠ []) (hrest : rest ≠ []) :
    unlines (ls ++ rest) = unlines ls ++ '\n' :: unlines rest := by
  induction ls with
  | nil => exact absurd rfl hls
  | cons line ls ih =>
    by_cases h : ls = []
    · rw [h, unlines_singleton]
      exact unlines_cons line hrest
    · rw [List.cons_append, unlines_cons line (List.append_ne_nil_of_left_ne_nil h rest), ih h,
        unlines_cons line h, List.append_assoc, List.cons_append]

theorem allBlank_unlines_iff : AllBlank (unlines ls) ↔ ∀ l ∈ ls, AllBlank l := by
  induction ls with
  | nil => exact iff_of_true nofun nofun
  | cons line ls ih =>
    by_cases h : ls = []
    · rw [h, unlines_singleton, List.forall_mem_singleton]
    · rw [unlines_cons line h, List.forall_mem_cons, ← ih, AllBlank, List.forall_mem_append,
        List.forall_mem_cons]
      exact and_congr_right fun _ => and_iff_right rfl

theorem unlines_linesOf (text : String) : unlines (linesOf text) = text.toList :=
  List.intercalate_splitOn '\n'

theorem linesOf_ne_nil (text : String) : linesOf text ≠ [] := List.splitOnP_ne_nil _ _

theorem toList_fencedPrompt (block text : String) :
    (fencedPrompt block text).toList = '-' :: '-' :: '-' ::
      unlines ([] :: linesOf block ++ dashes :: linesOf text) := by
  rw [unlines_append (List.cons_ne_nil _ _) (List.cons_ne_nil _ _),
    unlines_cons [] (linesOf_ne_nil block),
    unlines_cons _ (linesOf_ne_nil text), unlines_linesOf, unlines_linesOf, fencedPrompt]
  simp only [String.toList_append, List.append_assoc]
  rfl

/-! ### The end of a block -/

/-- Blank space runs over the end of a line if there is nothing else in it. -/
theorem mem_takeWhile_isBlank (h : '\n' ∉ line) (cs : List Char) :
    '\n' ∈ (line ++ '\n' :: cs).takeWhile isBlank ↔ AllBlank line := by
  induction line with
  | nil => exact iff_of_true List.mem_cons_self nofun
  | cons c line ih =>
    rw [List.mem_cons, not_or] at h
    rw [List.cons_append, List.takeWhile_cons, AllBlank, List.forall_mem_cons, ← AllBlank, ← ih h.2]
    split_ifs with hc
    · simp [hc, h.1]
    · simp [hc]

theorem closesBlock_iff (cs : List Char) :
    closesBlock ('\n' :: cs) = true ↔
      ∃ rest, cs = '-' :: '-' :: '-' :: rest ∧ '\n' ∈ rest.takeWhile isBlank := by
  unfold closesBlock
  split
  · next rest heq =>
    cases heq
    simp
  · next hne =>
    refine ⟨fun h => absurd h Bool.false_ne_true, ?_⟩
    rintro ⟨rest, rfl, -⟩
    exact absurd rfl (hne rest)

/-- What closes a block is a fence with a line feed after it. -/
theorem closesBlock_line (h : '\n' ∉ line) :
    closesBlock ('\n' :: unlines (line :: ls)) = true ↔ IsFence line ∧ ls ≠ [] := by
  rw [closesBlock_iff]
  by_cases hls : ls = []
  · subst hls
    rw [unlines_singleton]
    refine ⟨?_, fun ⟨_, hne⟩ => absurd rfl hne⟩
    rintro ⟨rest, rfl, hrest⟩
    have hfeed := List.takeWhile_subset isBlank hrest
    exact absurd (List.mem_append_right dashes hfeed) h
  rw [unlines_cons line hls]
  constructor
  · rintro ⟨rest, heq, hrest⟩
    have hsplit : line ++ '\n' :: unlines ls = dashes ++ rest := heq
    obtain ⟨after, hdashes, hafter⟩ | ⟨blanks, rfl, rfl⟩ := List.append_eq_append_iff.mp hsplit
    · -- the line feed is not among the dashes, so the line has all three of them
      cases after with
      | nil =>
        rw [List.append_nil] at hdashes
        exact ⟨hdashes ▸ by decide, hls⟩
      | cons c after =>
        obtain ⟨rfl, -⟩ := List.cons.inj hafter
        have hmem : '\n' ∈ dashes := hdashes ▸ List.mem_append_right line List.mem_cons_self
        exact absurd hmem (by decide)
    · rw [List.mem_append, not_or] at h
      exact ⟨⟨List.prefix_append _ _, (mem_takeWhile_isBlank h.2 _).mp hrest⟩, hls⟩
  · rintro ⟨⟨⟨blanks, rfl⟩, hblanks⟩, -⟩
    rw [List.mem_append, not_or] at h
    exact ⟨blanks ++ '\n' :: unlines ls, rfl, (mem_takeWhile_isBlank h.2 _).mpr hblanks⟩

theorem blockBody?_append (h : '\n' ∉ line) (body cs : List Char) :
    blockBody? body (line ++ cs) = blockBody? (line.reverse ++ body) cs := by
  induction line generalizing body with
  | nil => rfl
  | cons c line ih =>
    rw [List.mem_cons, not_or] at h
    have hcloses : ¬ closesBlock (c :: (line ++ cs)) = true := by
      unfold closesBlock
      split
      · next heq => exact absurd (List.cons.inj heq).1.symm h.1
      · exact Bool.false_ne_true
    rw [List.cons_append, blockBody?, if_neg hcloses, ih h.2, List.reverse_cons, List.append_assoc,
      List.singleton_append]

/-- A block ends before the first line that is a fence, or does not. -/
theorem blockBody?_line {next : List Char} (hline : '\n' ∉ line) (hnext : '\n' ∉ next)
    (body : List Char) :
    blockBody? body (unlines (line :: next :: ls)) =
      if IsFence next ∧ ls ≠ [] then some (body.reverse ++ line)
      else blockBody? ('\n' :: (line.reverse ++ body)) (unlines (next :: ls)) := by
  rw [unlines_cons line (List.cons_ne_nil _ _), blockBody?_append hline, blockBody?]
  by_cases hclose : IsFence next ∧ ls ≠ []
  · rw [if_pos ((closesBlock_line hnext).mpr hclose), if_pos hclose, List.reverse_append,
      List.reverse_reverse]
  · rw [if_neg (mt (closesBlock_line hnext).mp hclose), if_neg hclose]

/-- A block ends at the first fence. -/
theorem blockBody?_fence (hfence : IsFence fence) (hrest : rest ≠ []) (hls : ∀ l ∈ ls, ¬ IsFence l)
    (hfeed : '\n' ∉ fence) (hfeeds : ∀ l ∈ line :: ls, '\n' ∉ l) (body : List Char) :
    blockBody? body (unlines (line :: (ls ++ fence :: rest))) =
      some (body.reverse ++ unlines (line :: ls)) := by
  -- the lines that do not close the block go to the body one after another
  induction ls generalizing line body with
  | nil =>
    rw [List.nil_append, blockBody?_line (hfeeds line List.mem_cons_self) hfeed,
      if_pos ⟨hfence, hrest⟩, unlines_singleton]
  | cons next ls ih =>
    rw [List.forall_mem_cons] at hls hfeeds
    rw [List.cons_append, blockBody?_line hfeeds.1 (hfeeds.2 next List.mem_cons_self),
      if_neg fun h => hls.1 h.1, ih hls.2 hfeeds.2, unlines_cons line (List.cons_ne_nil _ _)]
    simp only [List.reverse_cons, List.reverse_append, List.reverse_reverse, List.append_assoc,
      List.singleton_append]

/-- A block without a fence has no end. -/
theorem blockBody?_unfenced (hls : ∀ l ∈ ls.dropLast, ¬ IsFence l)
    (hfeeds : ∀ l ∈ line :: ls, '\n' ∉ l) (body : List Char) :
    blockBody? body (unlines (line :: ls)) = none := by
  induction ls generalizing line body with
  | nil =>
    rw [unlines_singleton, ← List.append_nil line,
      blockBody?_append (hfeeds line (by simp)), blockBody?]
  | cons next ls ih =>
    rw [List.forall_mem_cons] at hfeeds
    rw [blockBody?_line hfeeds.1 (hfeeds.2 next List.mem_cons_self)]
    by_cases hlast : ls = []
    · rw [if_neg fun h => h.2 hlast]
      exact ih (by simp [hlast]) hfeeds.2 _
    · rw [List.dropLast_cons_of_ne_nil hlast, List.forall_mem_cons] at hls
      rw [if_neg fun h => hls.1 h.1, ih hls.2 hfeeds.2]

/-! ### The start of a block -/

theorem blockStarts_append (hws : AllBlank ws) (hfeed : '\n' ∉ ws) (found : List (List Char))
    (cs : List Char) : blockStarts found (ws ++ cs) = blockStarts found cs := by
  induction ws with
  | nil => rfl
  | cons c ws ih =>
    rw [AllBlank, List.forall_mem_cons] at hws
    rw [List.mem_cons, not_or] at hfeed
    rw [List.cons_append, blockStarts, if_pos hws.1, if_neg (Ne.symm hfeed.1), ih hws.2 hfeed.2]

/-- A block can begin after a blank line. -/
theorem blockStarts_blank_line (hline : AllBlank line) (hfeed : '\n' ∉ line)
    (hrest : rest ≠ []) (found : List (List Char)) :
    blockStarts found (unlines (line :: rest)) =
      blockStarts (unlines rest :: found) (unlines rest) := by
  rw [unlines_cons line hrest, blockStarts_append hline hfeed, blockStarts]
  rfl

/-- Where a block can begin before some blank lines, it can begin after them, and does so sooner. -/
theorem blockStarts_blank_lines (hblanks : ∀ l ∈ blanks, AllBlank l)
    (hfeeds : ∀ l ∈ blanks, '\n' ∉ l) (hrest : rest ≠ []) (found : List (List Char)) :
    ∃ others, blockStarts (unlines (blanks ++ rest) :: found) (unlines (blanks ++ rest)) =
      blockStarts (unlines rest :: others) (unlines rest) := by
  induction blanks generalizing found with
  | nil => exact ⟨found, rfl⟩
  | cons line blanks ih =>
    rw [List.forall_mem_cons] at hblanks hfeeds
    rw [List.cons_append, blockStarts_blank_line hblanks.1 hfeeds.1
      (List.append_ne_nil_of_right_ne_nil blanks hrest)]
    exact ih hblanks.2 hfeeds.2 _

theorem blockStarts_of_not_allBlank (hline : ¬ AllBlank line) (hfeed : '\n' ∉ line)
    (found : List (List Char)) (cs : List Char) : blockStarts found (line ++ cs) = found := by
  induction line with
  | nil => exact absurd nofun hline
  | cons c line ih =>
    rw [List.mem_cons, not_or] at hfeed
    rw [AllBlank, List.forall_mem_cons, not_and] at hline
    rw [List.cons_append, blockStarts]
    by_cases hc : isBlank c = true
    · rw [if_pos hc, if_neg (Ne.symm hfeed.1), ih (hline hc) hfeed.2]
    · rw [if_neg hc]

/-- No block begins after a line that is not blank. -/
theorem blockStarts_nonblank_line (hline : ¬ AllBlank line) (hfeed : '\n' ∉ line)
    (hrest : rest ≠ [])
    (found : List (List Char)) : blockStarts found (unlines (line :: rest)) = found := by
  rw [unlines_cons line hrest, blockStarts_of_not_allBlank hline hfeed]

/-! ### Ids -/

theorem firstId?_append {first : Char} (h : first ∉ ws) (keyword cs : List Char) :
    firstId? (first :: keyword) (ws ++ cs) = firstId? (first :: keyword) cs := by
  induction ws with
  | nil => rfl
  | cons c ws ih =>
    rw [List.mem_cons, not_or] at h
    have hnone : idAfter? (first :: keyword) (c :: (ws ++ cs)) = none := by
      rw [idAfter?, List.isPrefixOf_cons_cons, beq_false_of_ne h.1, Bool.false_and,
        if_neg Bool.false_ne_true]
    rw [List.cons_append, firstId?, hnone]
    exact ih h.2

/-- Every keyword begins with the same letter, so no id stands before the first one. -/
theorem idIn_append (h : 'c' ∉ ws) (cs : List Char) : idIn (ws ++ cs) = idIn cs := by
  have hskip (keyword : List Char) := firstId?_append h keyword cs
  simp only [idIn, contextKeywords, List.findSome?_cons, List.findSome?_nil]
  rw [show "chat_context".toList = 'c' :: "hat_context".toList from rfl,
    show "context".toList = 'c' :: "ontext".toList from rfl, hskip, hskip]

theorem idIn_eq_none (h : 'c' ∉ ws) : idIn ws = none := by
  rw [← List.append_nil ws, idIn_append h]
  rfl

theorem not_mem_of_allBlank (h : AllBlank ws) : 'c' ∉ ws :=
  fun hmem => absurd (h 'c' hmem) (by decide)

/-- Blank lines before others name no id. -/
theorem idIn_blank_lines (hblanks : ∀ l ∈ blanks, AllBlank l) (hrest : rest ≠ []) :
    idIn (unlines (blanks ++ rest)) = idIn (unlines rest) := by
  by_cases h : blanks = []
  · rw [h, List.nil_append]
  · have hblank := not_mem_of_allBlank (allBlank_unlines_iff.mpr hblanks)
    rw [unlines_append h hrest, idIn_append hblank]
    exact idIn_append (show 'c' ∉ ['\n'] by decide) _

/-! ### Prompts with a block -/

theorem promptHeader_fencedPrompt (hlines : linesOf block ++ dashes :: linesOf text = ls)
    {header : List Char}
    (h : (blockStarts [unlines ls] (unlines ls)).findSome? (blockBody? []) = some header) :
    promptHeader (fencedPrompt block text) = header := by
  have hne : ls ≠ [] := hlines ▸ List.append_ne_nil_of_right_ne_nil _ (List.cons_ne_nil _ _)
  rw [promptHeader, toList_fencedPrompt, List.cons_append, hlines, fencedBlock?,
    blockStarts_blank_line (nofun : AllBlank []) List.not_mem_nil hne, h]

/-- The first line that is not blank, and the blank lines before it. -/
theorem exists_append_of_not_allBlank (h : ¬ ∀ l ∈ ls, AllBlank l) :
    ∃ blanks line more, ls = blanks ++ line :: more ∧ (∀ l ∈ blanks, AllBlank l) ∧
      ¬ AllBlank line := by
  have hsome : (ls.find? fun l => ¬ AllBlank l).isSome := by simpa using h
  obtain ⟨line, hfind⟩ := Option.isSome_iff_exists.mp hsome
  obtain ⟨hline, blanks, more, hls, hblanks⟩ := List.find?_eq_some_iff_append.mp hfind
  exact ⟨blanks, line, more, hls, by simpa using hblanks, by simpa using hline⟩

theorem newline_not_mem_linesOf (text : String) : ∀ l ∈ linesOf text, '\n' ∉ l :=
  fun _ => not_mem_of_mem_splitOn

theorem isFence_dashes : IsFence dashes := by decide

theorem newline_not_mem_dashes : '\n' ∉ dashes := by decide

/-- A block with a character that is not blank names the id. The blank lines before it are left out
of the header. -/
theorem contextId?_fencedPrompt (hblock : ∀ l ∈ linesOf block, ¬ IsFence l)
    (hblank : ¬ AllBlank block.toList) (text : String) :
    contextId? (fencedPrompt block text) = idIn block.toList := by
  rw [← unlines_linesOf, allBlank_unlines_iff] at hblank
  obtain ⟨blanks, line, more, hlines, hblanks, hline⟩ := exists_append_of_not_allBlank hblank
  have hfeeds := newline_not_mem_linesOf block
  rw [hlines, List.forall_mem_append] at hblock hfeeds
  have hfeed := hfeeds.2 line List.mem_cons_self
  have hheader : promptHeader (fencedPrompt block text) = unlines (line :: more) := by
    obtain ⟨others, hstarts⟩ := blockStarts_blank_lines hblanks hfeeds.1
      (List.cons_ne_nil line (more ++ dashes :: linesOf text)) []
    refine promptHeader_fencedPrompt (by rw [hlines, List.append_assoc, List.cons_append]) ?_
    rw [hstarts, blockStarts_nonblank_line hline hfeed (by simp), List.findSome?_cons,
      blockBody?_fence isFence_dashes (linesOf_ne_nil text) (List.forall_mem_cons.mp hblock.2).2
        newline_not_mem_dashes hfeeds.2]
    rfl
  rw [contextId?_eq, hheader, ← unlines_linesOf, hlines,
    idIn_blank_lines hblanks (List.cons_ne_nil _ _)]

/-- In a block of blank lines, the closing fence is passed if another one comes later. -/
theorem promptHeader_blank_block (hblank : AllBlank block.toList) (text : String) :
    ∃ last, AllBlank last ∧ promptHeader (fencedPrompt block text) =
      (blockBody? [] (unlines (dashes :: linesOf text))).getD last := by
  obtain ⟨blanks, last, hlines⟩ : ∃ blanks last, linesOf block = blanks ++ [last] :=
    ⟨_, _, (List.dropLast_concat_getLast (linesOf_ne_nil block)).symm⟩
  have hfeeds := newline_not_mem_linesOf block
  rw [← unlines_linesOf, allBlank_unlines_iff] at hblank
  rw [hlines, List.forall_mem_append, List.forall_mem_singleton] at hfeeds hblank
  obtain ⟨others, hstarts⟩ := blockStarts_blank_lines hblank.1 hfeeds.1
    (List.cons_ne_nil last (dashes :: linesOf text)) []
  refine ⟨last, hblank.2, promptHeader_fencedPrompt (by rw [hlines, List.append_assoc]) ?_⟩
  rw [List.singleton_append, hstarts,
    blockStarts_blank_line hblank.2 hfeeds.2 (List.cons_ne_nil _ _),
    blockStarts_nonblank_line (by decide) newline_not_mem_dashes (linesOf_ne_nil text),
    List.findSome?_cons]
  -- the start after the closing fence is tried before the one after which that fence closes the
  -- block
  cases blockBody? [] (unlines (dashes :: linesOf text)) with
  | some header => rfl
  | none =>
    rw [List.findSome?_cons, blockBody?_line hfeeds.2 newline_not_mem_dashes,
      if_pos ⟨isFence_dashes, linesOf_ne_nil text⟩]
    rfl

/-- A block of blank lines is the header if no line after it is a fence. -/
theorem contextId?_unfenced (hblank : AllBlank block.toList) (htext : IsUnfenced text) :
    contextId? (fencedPrompt block text) = none := by
  obtain ⟨last, hlast, hheader⟩ := promptHeader_blank_block hblank text
  have hfeeds : ∀ l ∈ dashes :: linesOf text, '\n' ∉ l :=
    List.forall_mem_cons.mpr ⟨newline_not_mem_dashes, newline_not_mem_linesOf text⟩
  rw [contextId?_eq, hheader, blockBody?_unfenced htext hfeeds, Option.getD_none,
    idIn_eq_none (not_mem_of_allBlank hlast)]

/-- After a block of blank lines, the id is that of the text before the first fence. -/
theorem contextId?_blank_block (hblank : AllBlank block.toList)
    (htext : linesOf text = ls ++ fence :: rest) (hfence : IsFence fence) (hrest : rest ≠ [])
    (hls : ∀ l ∈ ls, ¬ IsFence l) :
    contextId? (fencedPrompt block text) = idIn (unlines ls) := by
  obtain ⟨last, -, hheader⟩ := promptHeader_blank_block hblank text
  have hfeeds := newline_not_mem_linesOf text
  rw [htext, List.forall_mem_append, List.forall_mem_cons] at hfeeds
  rw [contextId?_eq, hheader, htext, blockBody?_fence hfence hrest hls hfeeds.2.1
    (List.forall_mem_cons.mpr ⟨newline_not_mem_dashes, hfeeds.1⟩), Option.getD_some,
      List.reverse_nil,
    List.nil_append]
  by_cases h : ls = []
  · rw [h, unlines_singleton]
    rfl
  · rw [unlines_cons dashes h]
    exact idIn_append (show 'c' ∉ dashes ++ ['\n'] by decide) _

/-- Text after the closing fence of a block names no id: the id is that of the block, unless the
block is blank and some line after it is a fence. -/
theorem contextId_block_bounds (block text text' : String)
    (hblock : ∀ l ∈ linesOf block, ¬ IsFence l)
    (h : ¬ AllBlank block.toList ∨ IsUnfenced text ∧ IsUnfenced text') :
    contextId? (fencedPrompt block text) = contextId? (fencedPrompt block text') ∧
      contextId? (fencedPrompt block text) = idIn block.toList := by
  by_cases hblank : AllBlank block.toList
  · obtain ⟨htext, htext'⟩ := h.resolve_left (not_not_intro hblank)
    rw [contextId?_unfenced hblank htext, contextId?_unfenced hblank htext',
      idIn_eq_none (not_mem_of_allBlank hblank)]
    exact ⟨rfl, rfl⟩
  · rw [contextId?_fencedPrompt hblock hblank, contextId?_fencedPrompt hblock hblank]
    exact ⟨rfl, rfl⟩

/-- A block with a blank line in it, before a text with a fence and another id. -/
theorem contextId_block_bounds_notes :
    (∀ l ∈ linesOf "title: x\n\ncontext: a", ¬ IsFence l) ∧
    ¬ AllBlank "title: x\n\ncontext: a".toList ∧
    contextId? (fencedPrompt "title: x\n\ncontext: a" "context: b\n---\n") =
      contextId? (fencedPrompt "title: x\n\ncontext: a" "") ∧
    contextId? (fencedPrompt "title: x\n\ncontext: a" "context: b\n---\n") = some "a" := by
  have hlines : ∀ l ∈ linesOf "title: x\n\ncontext: a", ¬ IsFence l := by decide
  have hblank : ¬ AllBlank "title: x\n\ncontext: a".toList := by decide
  obtain ⟨hsame, hid⟩ := contextId_block_bounds _ "context: b\n---\n" "" hlines (.inl hblank)
  exact ⟨hlines, hblank, hsame, hid.trans (by decide)⟩

/-- After an empty block, an id in the text up to the next fence is found. -/
theorem contextId_block_passed :
    (∀ l ∈ linesOf "", ¬ IsFence l) ∧
    contextId? (fencedPrompt "" "context: x\n---\n") = some "x" ∧
    contextId? (fencedPrompt "" "") = none := by
  have htext : linesOf "context: x\n---\n" = ["context: x".toList] ++ dashes :: [[]] := by decide
  refine ⟨by decide, ?_, by decide +kernel⟩
  rw [contextId?_blank_block (by decide) htext isFence_dashes (by decide) (by decide)]
  decide

end NoteShell.Chat
