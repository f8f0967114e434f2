import Mathlib.Tactic.Common
import NoteShell.Grammar.Field
import NoteShell.Proofs.Parsing.Parts
import NoteShell.Proofs.Text.Lengths

/-!
# The fields of formatted texts

A field of a formatted text is a source text of its own, which is shorter than the formatted text.
Its source ends where a character ends it outside of quotes and brackets. Quotes and brackets are
found by looking at one character at a time: a quote closes with the next one of its kind, whatever
stands in front of it, and brackets of all kinds are counted together.

## Main definitions

* `Nest` : the quote that is open, and the number of open brackets.
* `Nest.after?` : where a reader stands after some characters that do not end a field.
* `ClosesAll` : a text without ends of a field, in which all quotes and brackets are closed.

## Main results

* `length_takeField` : a field and what follows it.
* `children_of_readFormatted` : what holds of the expressions of short source texts holds of fields.
* `scanField_of_after?` : characters that do not end a field are kept.
* `takeField_of_closesAll` : the field of a source in braces.
-/

namespace NoteShell.Grammar

open NoteShell.Text

/-! ### What a field takes -/

theorem length_scanField {quote : Option Char} {depth : Nat} {source cs source' rest : List Char}
    {conversion conversion' : Option (List Char)} {colon : Bool}
    (h : scanField quote depth source conversion cs = some (source', conversion', colon, rest)) :
    source'.length + rest.length ≤ source.length + cs.length := by
  fun_induction scanField quote depth source conversion cs
  case case1 => cases h
  case case7 ih =>
    have hle := ih h
    rw [List.length_cons]
    omega
  case case8 | case9 =>
    cases h
    rw [List.length_reverse, List.length_cons]
    omega
  -- In all other cases a character is kept, in the source or in the conversion.
  case case2 keep _ ih ih' | case3 keep _ ih ih' | case4 keep _ _ ih ih' | case5 keep _ _ _ ih ih'
  | case6 keep _ _ _ _ ih ih' | case10 keep _ _ _ _ _ _ _ ih ih' =>
    simp only [keep] at h
    split at h
    · have hle := ih _ _ _ h
      rw [List.length_cons]
      omega
    · have hle := ih' _ _ h
      rw [List.length_cons] at hle ⊢
      omega

theorem length_takeField {cs rest : List Char} {field : FieldText}
    (h : takeField cs = .ok (field, rest)) : field.source.length + rest.length ≤ cs.length := by
  rw [takeField] at h
  split at h
  · cases h
  · next source conversion colon after hscan =>
    have hle := length_scanField hscan
    rw [List.length_nil, Nat.zero_add] at hle
    split_ifs at h
    · have hdrop := (List.dropWhile_suffix (l := after) fun c => decide (c ≠ '}')).length_le
      dsimp only at h
      split at h
      · next tail htail =>
        cases h
        rw [htail, List.length_cons] at hdrop
        dsimp only
        omega
      · cases h
    · cases h
      exact hle

/-- What holds of all short sources that are read holds of the fields of a body. -/
theorem value_of_splitBody {Q : Expr → Prop} {most : Nat} {read : String → Except SourceError Expr}
    (hread : ∀ source e, source.length ≤ most → read source = .ok e → Q e) {line fuel : Nat}
    {pending : List Char} {pieces result : List Piece} {cs : List Char} (hcs : cs.length ≤ most)
    (hpieces : ∀ p ∈ pieces, ∀ e ∈ p.value?, Q e)
    (hok : splitBody read line fuel pending pieces cs = .ok result) :
    ∀ p ∈ result, ∀ e ∈ p.value?, Q e := by
  have hliteral {pending : List Char} {pieces : List Piece}
      (hpieces : ∀ p ∈ pieces, ∀ e ∈ p.value?, Q e) :
      ∀ p ∈ addLiteral pending pieces, ∀ e ∈ p.value?, Q e := by
    rw [addLiteral]
    split_ifs
    · exact hpieces
    · exact List.forall_mem_cons.mpr ⟨nofun, hpieces⟩
  fun_induction splitBody read line fuel pending pieces cs with
  | case1 | case2 =>
    cases hok
    exact fun p hp => hliteral hpieces p (List.mem_reverse.mp hp)
  | case3 _ _ _ _ ih | case4 _ _ _ _ ih =>
    simp only [List.length_cons] at hcs
    exact ih (by omega) hpieces hok
  | case5 | case6 | case7 => cases hok
  | case8 _ _ _ _ _ field _ htake value hvalue piece ih =>
    have hfield := length_takeField htake
    have htrim := length_dropEndWhile_le isBlank (field.source.dropWhile isBlank)
    have hdrop := (List.dropWhile_suffix isBlank (l := field.source)).length_le
    rw [List.length_cons] at hcs
    refine ih (by omega) (List.forall_mem_cons.mpr ⟨fun e he => ?_, hliteral hpieces⟩) hok
    obtain rfl : value = e := by simpa [piece, Piece.value?] using he
    refine hread _ _ ?_ hvalue
    rw [String.length_ofList, trimChars]
    omega
  | case9 _ _ _ _ _ _ _ _ _ ih =>
    rw [List.length_cons] at hcs
    exact ih (by omega) hpieces hok

/-- What holds of all short sources that are read holds of the fields of a formatted text. -/
theorem children_of_readFormatted {Q : Expr → Prop} {most : Nat}
    {read : String → Except SourceError Expr}
    (hread : ∀ source e, source.length ≤ most → read source = .ok e → Q e) {body : String}
    (hbody : body.length ≤ most) {line : Nat} {e : Expr}
    (hok : readFormatted read body line = .ok e) :
    (∃ pieces, e = .formatted pieces) ∧ ∀ c ∈ e.children, Q c := by
  rw [readFormatted] at hok
  cases hpieces : splitBody read line (body.toList.length + 1) [] [] body.toList with
  | error fault =>
    rw [hpieces] at hok
    cases hok
  | ok pieces =>
    rw [hpieces] at hok
    cases hok
    refine ⟨⟨pieces, rfl⟩, fun c hc => ?_⟩
    obtain ⟨piece, hpiece, hvalue⟩ := List.mem_filterMap.mp hc
    rw [← String.length_toList] at hbody
    exact value_of_splitBody hread hbody (by simp) hpieces piece hpiece c hvalue

/-! ### Quotes and brackets, one character at a time -/

/-- Where a reader stands that looks at one character at a time: the quote that is open, and the
number of open brackets. -/
structure Nest where
  quote : Option Char
  depth : Nat
deriving DecidableEq

/-- The start of a text. -/
def Nest.outside : Nest := ⟨none, 0⟩

/-- The braces, and the characters that stand between the source of a field and what follows it. -/
def fieldEnds : List Char := ['{', '}', '!', ':']

/-- The characters that mean something in a field: quotes, brackets, and what ends its source. -/
def fieldMarks : List Char := ['\'', '"', '(', ')', '[', ']'] ++ fieldEnds

namespace Nest

/-- The next character is read. Outside of quotes it must not be an end of a field. -/
def step? (n : Nest) (c : Char) : Option Nest :=
  match n.quote with
  | some q => some ⟨if c = q then none else some q, n.depth⟩
  | none =>
    if c = '\'' ∨ c = '"' then some ⟨some c, n.depth⟩
    else if c = '(' ∨ c = '[' then some ⟨none, n.depth + 1⟩
    else if c = ')' ∨ c = ']' then some ⟨none, n.depth - 1⟩
    else if c ∈ fieldEnds then none
    else some n

/-- Some characters are read. -/
def after? (n : Nest) (cs : List Char) : Option Nest := cs.foldlM step? n

variable {n m : Nest} {c : Char} {cs : List Char}

theorem after?_cons (n : Nest) (c : Char) (cs : List Char) :
    n.after? (c :: cs) = (n.step? c).bind (after? · cs) := by
  rw [after?, List.foldlM_cons]
  rfl

theorem after?_append (n : Nest) (cs cs' : List Char) :
    n.after? (cs ++ cs') = (n.after? cs).bind (after? · cs') := by
  rw [after?, List.foldlM_append]
  rfl

/-- Characters without meaning change nothing. -/
theorem after?_of_notMem_marks (h : ∀ c ∈ cs, c ∉ fieldMarks) (depth : Nat) :
    after? ⟨none, depth⟩ cs = some ⟨none, depth⟩ := by
  induction cs with
  | nil => rfl
  | cons c cs ih =>
    have hc := h c List.mem_cons_self
    simp only [fieldMarks, List.mem_append, List.mem_cons, List.not_mem_nil, or_false, not_or] at hc
    have hstep : step? ⟨none, depth⟩ c = some ⟨none, depth⟩ := by simp [step?, hc]
    rw [after?_cons, hstep, Option.bind_some, ih fun c hc => h c (List.mem_cons_of_mem _ hc)]

/-- Between quotes only the closing quote matters. -/
theorem after?_of_notMem_quote {q : Char} (h : q ∉ cs) (depth : Nat) :
    after? ⟨some q, depth⟩ cs = some ⟨some q, depth⟩ := by
  induction cs with
  | nil => rfl
  | cons c cs ih =>
    rw [List.mem_cons, not_or] at h
    have hstep : step? ⟨some q, depth⟩ c = some ⟨some q, depth⟩ := by simp [step?, Ne.symm h.1]
    rw [after?_cons, hstep, Option.bind_some, ih h.2]

end Nest

/-- All quotes and brackets of a text are closed at its end, and outside of quotes it holds no end
of a field. -/
def ClosesAll (cs : List Char) : Prop := Nest.outside.after? cs = some .outside

instance (cs : List Char) : Decidable (ClosesAll cs) := inferInstanceAs (Decidable (_ = _))

/-! ### The source of a field -/

variable {n m : Nest} {cs : List Char}

/-- Characters that do not end a field are kept. -/
theorem scanField_of_after? (h : n.after? cs = some m) (source rest : List Char) :
    scanField n.quote n.depth source none (cs ++ rest) =
      scanField m.quote m.depth (cs.reverse ++ source) none rest := by
  induction cs generalizing n source with
  | nil =>
    cases h
    rfl
  | cons c cs ih =>
    rw [Nest.after?_cons] at h
    obtain ⟨mid, hstep, hrest⟩ := Option.bind_eq_some_iff.mp h
    have hkeep : scanField n.quote n.depth source none (c :: (cs ++ rest)) =
        scanField mid.quote mid.depth (c :: source) none (cs ++ rest) := by
      obtain ⟨quote, depth⟩ := n
      unfold Nest.step? at hstep
      cases quote with
      | some q =>
        cases hstep
        rw [scanField]
      | none =>
        dsimp only at hstep
        split_ifs at hstep with hquote hopens hcloses hends <;> cases hstep <;> rw [scanField]
        · simp only [hquote, if_true]
        · rcases hopens with rfl | rfl <;> rfl
        · rcases hcloses with rfl | rfl <;> rfl
        · rw [not_or] at hopens hcloses
          simp only [fieldEnds, List.mem_cons, List.not_mem_nil, or_false, not_or] at hends
          simp only [hquote, hopens, hcloses, hends, or_self, false_and, if_false]
    rw [List.cons_append, hkeep, ih hrest]
    simp

/-- The source in braces is taken as the source of a field. -/
theorem takeField_of_closesAll (h : ClosesAll cs) (rest : List Char) :
    takeField (cs ++ '}' :: rest) =
      if (trimChars cs).isEmpty then .error .emptyField else .ok (⟨cs, none, none⟩, rest) := by
  have hscan := scanField_of_after? h [] ('}' :: rest)
  have hend : scanField none 0 [] none (cs ++ '}' :: rest) = some (cs, none, false, rest) := by
    refine hscan.trans ?_
    simp [Nest.outside, scanField]
  rw [takeField, hend]
  simp

end NoteShell.Grammar
