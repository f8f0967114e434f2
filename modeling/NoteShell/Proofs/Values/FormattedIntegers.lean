import Mathlib.Data.Bool.AllAny
import Mathlib.Data.List.TakeWhile
import Mathlib.Tactic.SplitIfs
import NoteShell.Proofs.Lexing.Literal
import NoteShell.Script.Format

/-!
# Integers in formats

An integer in a format with a fill character, an alignment and a width is a number with fill
characters around it. The number itself depends neither on the width nor on the fill character: it
is a sign and the decimal digits, in groups of three from the right where commas are asked for.

## Main definitions

* `InThrees` : digits in groups of three from the right.
* `IsFormatted` : the characters of an integer before padding.
* `integerFormat` : a format for integers.

## Main results

* `exists_groups` : how commas are put between digits.
* `exists_padding` : how a text is padded.
* `formatValue_integer` : the text of an integer in a format.
-/

namespace NoteShell.Script

open NoteShell.Decimal NoteShell.Grammar

/-- The groups have three characters each, apart from the first, which may have one or two. -/
def InThrees (groups : List (List Char)) : Prop :=
  ∃ first others, groups = first :: others ∧ first ≠ [] ∧ first.length ≤ 3 ∧ ∀ g ∈ others, g.length = 3

/-- The characters of an integer before padding: a minus sign, or a plus sign where it is asked for,
and the decimal digits, in groups of three with commas between them where these are asked for. -/
def IsFormatted (plus comma : Bool) (i : Int) (number : List Char) : Prop :=
  ∃ groups, number = (if i < 0 then ['-'] else if plus then ['+'] else []) ++ [','].intercalate groups ∧
    groups.flatten = Nat.toDigits 10 i.natAbs ∧
    if comma then InThrees groups else groups = [Nat.toDigits 10 i.natAbs]

/-- A format for integers: a fill character, a mark for the alignment, a plus sign or none, a width,
and a comma or none. -/
def integerFormat (fill mark : Char) (plus : Bool) (width : Nat) (comma : Bool) : String :=
  String.ofList (fill :: mark :: ((if plus then ['+'] else []) ++ (Nat.toDigits 10 width ++
    ((if comma then [','] else []) ++ ['d']))))

variable {c : Char} {cs : List Char} {groups : List (List Char)}

/-! ### Commas between digits -/

/-- Digits with commas are groups of three from the right with commas between them. -/
theorem exists_groups (hcs : cs ≠ []) :
    ∃ groups, groupDigits cs = [','].intercalate groups ∧ groups.flatten = cs ∧
      InThrees groups := by
  induction cs with
  | nil => exact absurd rfl hcs
  | cons c cs ih =>
    by_cases hlast : cs = []
    · subst hlast
      exact ⟨[[c]], rfl, rfl, [c], [], rfl, List.cons_ne_nil c [], by simp, by simp⟩
    · obtain ⟨groups, hcommas, hflatten, first, others, rfl, hne, hlength, hothers⟩ := ih hlast
      -- A comma stands in front of the first group as soon as the group is full.
      have hcount : cs.length = first.length + 3 * others.length := by
        rw [← hflatten, List.flatten_cons, List.length_append, List.length_flatten,
          List.map_congr_left hothers, List.map_const', List.sum_replicate_nat, Nat.mul_comm]
      have hpos := List.length_pos_iff.mpr hne
      rw [groupDigits]
      split_ifs with hfull
      · refine ⟨[c] :: first :: others, ?_, ?_, [c], first :: others, rfl, List.cons_ne_nil c [],
          by simp, ?_⟩
        · rw [hcommas, List.intercalate_cons_cons]
          rfl
        · rw [List.flatten_cons, hflatten]
          rfl
        · exact List.forall_mem_cons.mpr ⟨by omega, hothers⟩
      · have hroom : cs.length % 3 ≠ 0 := fun hmod => hfull ⟨hlast, hmod⟩
        refine ⟨(c :: first) :: others, ?_, ?_, c :: first, others, rfl,
          List.cons_ne_nil c first, ?_, hothers⟩
        · rw [hcommas]
          cases others <;> simp
        · rw [List.flatten_cons, List.cons_append, ← List.flatten_cons, hflatten]
        · rw [List.length_cons]
          omega

theorem groupThousands_digits (hcs : ∀ c ∈ cs, c.isDigit = true) :
    groupThousands ('-' :: cs) = '-' :: groupDigits cs ∧ groupThousands cs = groupDigits cs := by
  have hall : cs.takeWhile Char.isDigit = cs ∧ cs.dropWhile Char.isDigit = [] :=
    ⟨List.takeWhile_eq_self_iff.mpr hcs, List.dropWhile_eq_nil_iff.mpr hcs⟩
  refine ⟨?_, ?_⟩
  · simp [groupThousands, hall]
  · rw [groupThousands]
    · simp [hall]
    · rintro rest rfl
      exact absurd (hcs '-' List.mem_cons_self) (by decide)

theorem mem_intercalate (h : c ∈ [','].intercalate groups) : c = ',' ∨ c ∈ groups.flatten := by
  induction groups with
  | nil => simp [List.intercalate] at h
  | cons g gs ih =>
    cases gs with
    | nil => simpa using Or.inr h
    | cons g' gs =>
      rw [List.intercalate_cons_cons, List.mem_append, List.mem_append, List.mem_singleton] at h
      rw [List.flatten_cons, List.mem_append]
      rcases h with (hg | hcomma) | hgs
      · exact .inr (.inl hg)
      · exact .inl hcomma
      · exact (ih hgs).imp_right .inr

theorem filter_intercalate {p : Char → Bool} (hp : p ',' = false) :
    ([','].intercalate groups).filter p = groups.flatten.filter p := by
  induction groups with
  | nil => rfl
  | cons g gs ih =>
    cases gs with
    | nil => simp
    | cons g' gs =>
      rw [List.intercalate_cons_cons, List.filter_append, List.filter_append, ih, List.flatten_cons,
        List.filter_append]
      simp [hp]

/-! ### Padding -/

/-- A text is padded on the sides that its alignment leaves free. -/
theorem exists_padding {mark : Char} {side : Alignment}
    (hmark : (mark, side) ∈ FormatSpec.alignmentMarks) (width : Nat) (fill : Char)
    (cs : List Char) :
    ∃ left right, padTo width fill side cs =
      List.replicate left fill ++ cs ++ List.replicate right fill ∧
      left + cs.length + right = max width cs.length ∧ (mark = '<' → left = 0) ∧
        (mark = '>' → right = 0) ∧
      (mark = '^' → left ≤ right ∧ right ≤ left + 1) := by
  simp only [FormatSpec.alignmentMarks, List.mem_cons, Prod.mk.injEq, List.not_mem_nil, or_false]
    at hmark
  rcases hmark with ⟨rfl, rfl⟩ | ⟨rfl, rfl⟩ | ⟨rfl, rfl⟩
  · exact ⟨0, width - cs.length, rfl, by omega, fun _ => rfl, by simp, by simp⟩
  · exact ⟨width - cs.length, 0, by simp [padTo], by omega, by simp, fun _ => rfl, by simp⟩
  · exact ⟨(width - cs.length) / 2, width - cs.length - (width - cs.length) / 2, rfl,
      by omega, by simp, by simp, fun _ => by omega⟩

/-! ### Integers -/

/-- The characters of an integer with its sign and its commas, as they are padded. -/
def integerChars (plus comma : Bool) (i : Int) : List Char :=
  let cs := if comma then groupThousands (intText i).toList else (intText i).toList
  if plus && cs.head? != some '-' then '+' :: cs else cs

variable {plus comma : Bool} {i : Int} {number : List Char}

theorem toList_intText_eq (i : Int) :
    (intText i).toList = (if i < 0 then ['-'] else []) ++ Nat.toDigits 10 i.natAbs := by
  rw [intText]
  split_ifs <;> simp [natText]

theorem isFormatted_integerChars (plus comma : Bool) (i : Int) :
    IsFormatted plus comma i (integerChars plus comma i) := by
  have hgroups : ∃ groups,
      (if comma then groupDigits (Nat.toDigits 10 i.natAbs) else Nat.toDigits 10 i.natAbs) =
        [','].intercalate groups ∧ groups.flatten = Nat.toDigits 10 i.natAbs ∧
        if comma then InThrees groups else groups = [Nat.toDigits 10 i.natAbs] := by
    cases comma with
    | true => exact exists_groups Nat.toDigits_ne_nil
    | false => exact ⟨[Nat.toDigits 10 i.natAbs], by simp, by simp, rfl⟩
  obtain ⟨groups, hbody, hflatten, hthrees⟩ := hgroups
  have hthousands := groupThousands_digits fun c (hc : c ∈ Nat.toDigits 10 i.natAbs) =>
    isDigit_of_mem_toDigits hc
  have hchars : (if comma then groupThousands (intText i).toList else (intText i).toList) =
      (if i < 0 then ['-'] else []) ++ [','].intercalate groups := by
    rw [toList_intText_eq, ← hbody]
    split_ifs
    · exact hthousands.1
    · exact hthousands.2
    · rfl
    · rfl
  refine ⟨groups, ?_, hflatten, hthrees⟩
  rw [integerChars, hchars]
  by_cases hneg : i < 0
  · simp [hneg]
  · have hhead : ([','].intercalate groups).head? ≠ some '-' := by
      intro hhead
      rcases mem_intercalate (List.mem_of_mem_head? hhead) with hcomma | hdigit
      · cases hcomma
      · rw [hflatten] at hdigit
        exact absurd (isDigit_of_mem_toDigits hdigit) (by decide)
    cases plus <;> simp [hneg, hhead]

/-- The characters of an integer in a format are digits, signs and commas. -/
theorem IsFormatted.isDigit_or_mem (h : IsFormatted plus comma i number) (hc : c ∈ number) :
    c.isDigit = true ∨ c ∈ ['+', '-', ','] := by
  obtain ⟨groups, rfl, hflatten, -⟩ := h
  rcases List.mem_append.mp hc with hsign | hgroup
  · split_ifs at hsign <;> simp at hsign <;> simp [hsign]
  · rcases mem_intercalate hgroup with rfl | hdigit
    · simp
    · exact .inl (isDigit_of_mem_toDigits (hflatten ▸ hdigit))

theorem IsFormatted.plus_mem_iff (h : IsFormatted plus comma i number) :
    '+' ∈ number ↔ plus = true ∧ 0 ≤ i := by
  obtain ⟨groups, rfl, hflatten, -⟩ := h
  have hdigits : '+' ∉ [','].intercalate groups := fun hmem => by
    rcases mem_intercalate hmem with hcomma | hdigit
    · cases hcomma
    · exact absurd (isDigit_of_mem_toDigits (hflatten ▸ hdigit)) (by decide)
  rw [List.mem_append, or_iff_left hdigits]
  by_cases hneg : i < 0
  · simp [hneg]
  · cases plus <;> simp [hneg, Int.not_lt.mp hneg]

/-- Without what is added to them the characters of an integer in a format are its decimal digits
with its sign. -/
theorem IsFormatted.filter_eq (h : IsFormatted plus comma i number) {added : List Char}
    (hplus : '+' ∈ added) (hcomma : ',' ∈ added) (hminus : '-' ∉ added)
    (hdigit : ∀ c ∈ added, c.isDigit = false) :
    number.filter (· ∉ added) = (intText i).toList := by
  obtain ⟨groups, rfl, hflatten, -⟩ := h
  have hdigits : (Nat.toDigits 10 i.natAbs).filter (· ∉ added) = Nat.toDigits 10 i.natAbs := by
    refine List.filter_eq_self.mpr fun c hc => decide_eq_true fun hadded => ?_
    exact Bool.false_ne_true ((hdigit c hadded).symm.trans (isDigit_of_mem_toDigits hc))
  rw [List.filter_append, filter_intercalate (by simpa using hcomma), hflatten, hdigits,
    toList_intText_eq]
  by_cases hneg : i < 0
  · simp [hneg, hminus]
  · cases plus <;> simp [hneg, hplus]

/-- What an integer format with a width within the limit gives. -/
theorem formatValue_integerFormat (h : Heap) (n : Int64) {mark : Char} {side : Alignment}
    (hmark : (mark, side) ∈ FormatSpec.alignmentMarks) (fill : Char)
    (plus comma : Bool) {width : Nat}
    (hwidth : width ≤ maxFormatWidth) :
    formatValue h (.int n) (integerFormat fill mark plus width comma) =
      .ok (String.ofList (padTo width fill side (integerChars plus comma n.toInt))) := by
  have hparse (invalid : EvalError) :
      FormatSpec.parse invalid (integerFormat fill mark plus width comma).toList =
        .ok ⟨fill, some side, plus, width, comma, none, some 'd'⟩ := by
    rw [integerFormat, String.toList_ofList]
    exact FormatSpec.parse_aligned invalid fill hmark plus comma hwidth rfl (by decide)
  rw [formatValue, hparse]
  cases plus <;> rfl

/-- An integer has one number for every format with or without a plus sign and with or without
commas: its sign and its decimal digits, in groups of three where commas are asked for. Whatever the
fill character, the alignment and the width up to the limit are, the format gives this number with
fill characters around it, and none in it, up to the width. Without the fill characters, the commas
and the plus sign it is the text of the integer, and there is a plus sign if and only if it is asked
for and the integer is not negative. -/
theorem formatValue_integer (h : Heap) (n : Int64) (plus comma : Bool) :
    ∃ number, IsFormatted plus comma n.toInt number ∧
      ∀ fill mark width, fill.isDigit = false → fill ∉ ['+', '-', ','] → mark ∈ ['<', '>', '^'] →
        width ≤ 10000 →
        ∃ text left right,
          formatValue h (.int n) (integerFormat fill mark plus width comma) = .ok (String.ofList text) ∧
          text = List.replicate left fill ++ number ++ List.replicate right fill ∧ fill ∉ number ∧
          text.length = max width number.length ∧ (mark = '<' → left = 0) ∧ (mark = '>' → right = 0) ∧
          (mark = '^' → left ≤ right ∧ right ≤ left + 1) ∧
          text.filter (· ∉ [fill, ',', '+']) = (intText n.toInt).toList ∧
          ('+' ∈ text ↔ plus = true ∧ 0 ≤ n.toInt) := by
  have hnumber := isFormatted_integerChars plus comma n.toInt
  refine ⟨_, hnumber, fun fill mark width hdigit hfill hmark hwidth => ?_⟩
  obtain ⟨side, hside⟩ : ∃ side, (mark, side) ∈ FormatSpec.alignmentMarks := by
    simpa [FormatSpec.alignmentMarks, exists_or] using hmark
  have hplus : fill ≠ '+' := fun heq => hfill (by simp [heq])
  have hminus : fill ≠ '-' := fun heq => hfill (by simp [heq])
  obtain ⟨left, right, hpad, hlength, hleft, hright, hcenter⟩ :=
    exists_padding hside width fill (integerChars plus comma n.toInt)
  refine ⟨_, left, right, formatValue_integerFormat h n hside fill plus comma hwidth, hpad,
    fun hmem => ?_, ?_, hleft, hright, hcenter, ?_, ?_⟩
  · rcases hnumber.isDigit_or_mem hmem with hmem | hmem
    · exact Bool.false_ne_true (hdigit.symm.trans hmem)
    · exact hfill hmem
  · rw [hpad, List.length_append, List.length_append, List.length_replicate,
      List.length_replicate, hlength]
  · have hadded : ∀ c ∈ [fill, ',', '+'], c.isDigit = false :=
      List.forall_mem_cons.mpr ⟨hdigit, List.all_iff_forall_prop.mp (by decide)⟩
    have hnone (m : Nat) : (List.replicate m fill).filter (· ∉ [fill, ',', '+']) = [] := by simp
    rw [hpad, List.filter_append, List.filter_append, hnone, hnone, List.nil_append,
      List.append_nil]
    exact hnumber.filter_eq (by simp) (by simp) (by simp [hminus.symm]) hadded
  · rw [hpad, ← hnumber.plus_mem_iff]
    simp [hplus.symm]

/-- A negative integer with commas in the middle of its field. -/
theorem formatValue_integer_centered :
    '*'.isDigit = false ∧ '*' ∉ ['+', '-', ','] ∧ '^' ∈ ['<', '>', '^'] ∧ 20 ≤ 10000 ∧
      integerFormat '*' '^' true 20 true = "*^+20,d" ∧
      formatValue .empty (.int (-1234567)) "*^+20,d" = .ok "*****-1,234,567*****" ∧
      ∃ number left right, IsFormatted true true (-1234567) number ∧
        "*****-1,234,567*****".toList = List.replicate left '*' ++ number ++ List.replicate right '*' ∧
        '*' ∉ number := by
  have hfill : '*' ∉ ['+', '-', ','] := by decide
  have hmark : '^' ∈ ['<', '>', '^'] := by decide
  have hformat : integerFormat '*' '^' true 20 true = "*^+20,d" := by decide +kernel
  have hread : formatValue .empty (.int (-1234567)) "*^+20,d" = .ok "*****-1,234,567*****" := by rfl
  obtain ⟨number, hnumber, hformats⟩ := formatValue_integer .empty (-1234567) true true
  obtain ⟨text, left, right, hvalue, htext, hnone, -⟩ :=
    hformats '*' '^' 20 rfl hfill hmark (by decide)
  rw [hformat, hread, Except.ok.injEq] at hvalue
  refine ⟨rfl, hfill, hmark, by decide, hformat, hread, number, left, right, hnumber, ?_, hnone⟩
  rw [hvalue, String.toList_ofList, htext]

end NoteShell.Script
