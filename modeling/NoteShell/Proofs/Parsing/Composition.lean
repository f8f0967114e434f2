import Mathlib.Data.Bool.AllAny
import NoteShell.Proofs.Lexing.Lexeme
import NoteShell.Proofs.Parsing.Nesting
import NoteShell.Proofs.Parsing.Fields
import NoteShell.Proofs.Text.Trimming

/-!
# Formatted texts that are composed

The body of a formatted text can be composed from literal texts and fields: braces in a literal text
are doubled, and a field is written between braces, with its conversion after an exclamation mark
and its format after a colon. Splitting the body gives these parts again, where a source of a field
holds no character that means something to the split.

## Main definitions

* `Part` : a literal text, or a field with the expression that its source is.
* `composed` : the body with the given parts.
* `mergeLiterals` : the pieces that are left where literal texts touch each other or are empty.

## Main results

* `readFormatted_composed` : a composed body is split into its parts.
-/

namespace NoteShell.Grammar

open NoteShell.Text

/-! ### Parts -/

/-- How the value of a field is turned into a text. -/
inductive Conversion where
  | shown
  | quoted
deriving DecidableEq

/-- The letter of a conversion. -/
def Conversion.letter : Conversion → Char
  | shown => 's'
  | quoted => 'r'

/-- A field with the expression that its source is. -/
structure WrittenField where
  source : String
  value : Expr
  conversion : Option Conversion
  spec : Option String
  parse_eq : parseExpression source = .ok value
  notBlank_head : ∀ c ∈ source.toList.head?, isBlank c = false
  notBlank_last : ∀ c ∈ source.toList.getLast?, isBlank c = false
  notMem_marks : ∀ c ∈ source.toList, c ∉ fieldMarks
  spec_ends : ∀ text ∈ spec, '}' ∉ text.toList

/-- A part of a formatted text as it is meant. -/
inductive Part where
  | literal (text : String)
  | field (f : WrittenField)

/-- A literal text with its braces doubled. -/
def doubled (cs : List Char) : List Char :=
  cs.flatMap fun c => if c = '{' ∨ c = '}' then [c, c] else [c]

namespace WrittenField

/-- What stands between the source and the closing brace, and the brace itself. -/
def ending (f : WrittenField) : List Char :=
  (f.conversion.elim [] fun conversion => ['!', conversion.letter]) ++
    (f.spec.elim [] fun text => ':' :: text.toList) ++ ['}']

end WrittenField

namespace Part

/-- The characters that a part is written with. -/
def written : Part → List Char
  | literal text => doubled text.toList
  | field f => '{' :: (f.source.toList ++ f.ending)

/-- The piece that a part is. A value that is shown is shown without conversion, too. -/
def piece : Part → Piece
  | literal text => .literal text
  | field f => .field f.value (f.conversion == some .quoted) f.spec

end Part

/-- The body of a formatted text with the given parts. -/
def composed (parts : List Part) : String := String.ofList (parts.flatMap Part.written)

/-- A piece in front of others, where literal texts are merged and empty ones are dropped. -/
def consPiece : Piece → List Piece → List Piece
  | .literal text, .literal text' :: pieces => .literal (text ++ text') :: pieces
  | .literal text, pieces => if text = "" then pieces else .literal text :: pieces
  | piece, pieces => piece :: pieces

/-- Pieces with adjacent literal texts merged and empty ones dropped. -/
def mergeLiterals (pieces : List Piece) : List Piece := pieces.foldr consPiece []

/-! ### Merging -/

/-- A literal text in front of pieces that do not begin with one. -/
theorem consPiece_literal {pieces : List Piece} (h : ∀ text rest, pieces ≠ .literal text :: rest)
    (text : String) :
    consPiece (.literal text) pieces = if text = "" then pieces else .literal text :: pieces := by
  rw [consPiece]
  exact h

theorem consPiece_append (text text' : String) (pieces : List Piece) :
    consPiece (.literal text) (consPiece (.literal text') pieces) =
      consPiece (.literal (text ++ text')) pieces := by
  by_cases h : ∃ text'' rest, pieces = .literal text'' :: rest
  · obtain ⟨text'', rest, rfl⟩ := h
    simp only [consPiece, String.append_assoc]
  · have hother : ∀ text rest, pieces ≠ .literal text :: rest :=
      fun text rest heq => h ⟨text, rest, heq⟩
    rw [consPiece_literal hother text', consPiece_literal hother]
    by_cases hempty : text' = ""
    · rw [if_pos hempty, hempty, String.append_empty, consPiece_literal hother]
    · rw [if_neg hempty, consPiece, if_neg]
      exact fun happend => hempty (String.append_eq_empty_iff.mp happend).2

theorem consPiece_empty (pieces : List Piece) : consPiece (.literal "") pieces = pieces := by
  by_cases h : ∃ text rest, pieces = .literal text :: rest
  · obtain ⟨text, rest, rfl⟩ := h
    rw [consPiece, String.empty_append]
  · rw [consPiece_literal fun text rest heq => h ⟨text, rest, heq⟩, if_pos rfl]

/-- Literal text that is pending at the end of a body. -/
theorem reverse_addLiteral (pending : List Char) (pieces : List Piece) :
    (addLiteral pending pieces).reverse =
      pieces.reverse ++ consPiece (.literal (String.ofList pending.reverse)) [] := by
  have hnil : ∀ text rest, ([] : List Piece) ≠ .literal text :: rest := nofun
  rw [addLiteral, consPiece_literal hnil]
  cases pending with
  | nil => simp
  | cons c pending => simp

/-- Literal text that is pending before a field. -/
theorem reverse_addLiteral_field (pending : List Char) (pieces after : List Piece) (value : Expr)
    (quoted : Bool) (spec : Option String) :
    (addLiteral pending pieces).reverse ++ .field value quoted spec :: after =
      pieces.reverse ++
        consPiece (.literal (String.ofList pending.reverse))
          (.field value quoted spec :: after) := by
  have hfield : ∀ text rest, Piece.field value quoted spec :: after ≠ .literal text :: rest := nofun
  rw [addLiteral, consPiece_literal hfield]
  cases pending with
  | nil => simp
  | cons c pending => simp

/-! ### Fields -/

theorem scanField_conversion (conversion : Option Conversion) (source rest : List Char) {c : Char}
    (hc : c = ':' ∨ c = '}') :
    scanField none 0 source none
        ((conversion.elim [] fun conversion => ['!', conversion.letter]) ++ c :: rest) =
      some (source.reverse, conversion.map fun conversion => [conversion.letter], c == ':',
        rest) := by
  rcases conversion with _ | conversion | conversion <;> rcases hc with rfl | rfl <;>
    simp [scanField, Conversion.letter]

theorem WrittenField.quoted_eq (f : WrittenField) :
    ((f.conversion.map fun conversion => [conversion.letter]) == some ['r']) =
      (f.conversion == some .quoted) := by
  rcases f.conversion with _ | conversion | conversion <;> rfl

theorem WrittenField.spec_eq (f : WrittenField) :
    (f.spec.map String.toList).map String.ofList = f.spec := by
  cases f.spec <;> simp

/-- A source that is an expression is not empty. -/
theorem WrittenField.source_eq_cons (f : WrittenField) :
    ∃ c cs, f.source.toList = c :: cs ∧ c ≠ '{' := by
  cases hsource : f.source.toList with
  | nil =>
    have hempty : f.source = "" := String.toList_eq_nil_iff.mp hsource
    have hparse := f.parse_eq
    rw [hempty] at hparse
    exact absurd hparse (by simp [show parseExpression "" = .error ⟨.unexpectedEnd, 1⟩ from rfl])
  | cons c cs =>
    refine ⟨c, cs, rfl, ?_⟩
    rintro rfl
    exact f.notMem_marks _ (hsource ▸ List.mem_cons_self) (by decide)

/-- A field is taken as it is written. -/
theorem takeField_written (f : WrittenField) (rest : List Char) :
    takeField (f.source.toList ++ f.ending ++ rest) =
      .ok (⟨f.source.toList, f.conversion.map fun conversion => [conversion.letter],
        f.spec.map String.toList⟩, rest) := by
  have htrim := trimChars_eq_self f.notBlank_head f.notBlank_last
  obtain ⟨c, cs, hsource, -⟩ := f.source_eq_cons
  have hempty : (trimChars f.source.toList).isEmpty = false := by rw [htrim, hsource]; rfl
  generalize hconversion : (f.conversion.map fun conversion => [conversion.letter]) = letters
  have hletters : letters = none ∨ letters = some ['r'] ∨ letters = some ['s'] := by
    subst hconversion
    rcases f.conversion with _ | conversion | conversion <;> decide
  have hscan {c : Char} (hc : c = ':' ∨ c = '}') (tail : List Char) :
      scanField none 0 [] none (f.source.toList ++
          ((f.conversion.elim [] fun conversion => ['!', conversion.letter]) ++ c :: tail)) =
        some (f.source.toList, letters, c == ':', tail) := by
    have hsource := scanField_of_after? (Nest.after?_of_notMem_marks f.notMem_marks 0) []
    rw [hsource, scanField_conversion _ _ _ hc, hconversion]
    simp
  rw [takeField, List.append_assoc, WrittenField.ending, List.append_assoc, List.append_assoc]
  cases hspec : f.spec with
  | none =>
    have hend := hscan (.inr rfl) rest
    simp only [Option.elim_none, List.nil_append, List.singleton_append, hend, hempty]
    rcases hletters with rfl | rfl | rfl <;> simp
  | some text =>
    have hspecEnds := f.spec_ends text hspec
    have hend := hscan (.inl rfl) (text.toList ++ '}' :: rest)
    have htext : (text.toList ++ '}' :: rest).takeWhile (fun c => decide (c ≠ '}')) = text.toList ∧
        (text.toList ++ '}' :: rest).dropWhile (fun c => decide (c ≠ '}')) = '}' :: rest :=
      takeWhile_append_of_head
        (fun c hc => decide_eq_true (by rintro rfl; exact hspecEnds hc)) (by simp)
    simp only [Option.elim_some, List.cons_append, List.nil_append, hend, hempty, htext.1, htext.2]
    rcases hletters with rfl | rfl | rfl <;> simp

/-! ### Bodies -/

/-- A doubled text is pending literal text. -/
theorem splitBody_doubled (read : String → Except SourceError Expr) (line : Nat)
    (text rest : List Char) {fuel : Nat} (pending : List Char) (pieces : List Piece)
    (hfuel : (doubled text ++ rest).length < fuel) :
    ∃ fuel', rest.length < fuel' ∧
      splitBody read line fuel pending pieces (doubled text ++ rest) =
        splitBody read line fuel' (text.reverse ++ pending) pieces rest := by
  induction text generalizing fuel pending with
  | nil => exact ⟨fuel, hfuel, rfl⟩
  | cons c text ih =>
    obtain ⟨fuel, rfl⟩ := Nat.exists_eq_succ_of_ne_zero (Nat.ne_zero_of_lt hfuel)
    have hstep : (doubled text ++ rest).length < fuel ∧
        splitBody read line (fuel + 1) pending pieces (doubled (c :: text) ++ rest) =
          splitBody read line fuel (c :: pending) pieces (doubled text ++ rest) := by
      have hcons : doubled (c :: text) ++ rest =
          (if c = '{' ∨ c = '}' then [c, c] else [c]) ++ (doubled text ++ rest) := by
        rw [doubled, List.flatMap_cons, List.append_assoc, doubled]
      rw [hcons] at hfuel ⊢
      rw [List.length_append] at hfuel
      by_cases hc : c = '{' ∨ c = '}'
      · rw [if_pos hc] at hfuel ⊢
        simp only [List.length_cons] at hfuel
        refine ⟨by omega, ?_⟩
        rcases hc with rfl | rfl <;> rfl
      · rw [if_neg hc] at hfuel ⊢
        rw [not_or] at hc
        simp only [List.length_cons] at hfuel
        refine ⟨by omega, ?_⟩
        rw [List.singleton_append, splitBody]
        · exact fun _ h _ => hc.1 h
        · exact fun _ h _ => hc.2 h
        · exact hc.2
        · exact hc.1
    obtain ⟨fuel', hfuel', heq⟩ := ih (c :: pending) hstep.1
    exact ⟨fuel', hfuel', hstep.2.trans (heq.trans (by simp))⟩

/-- The written parts are split into the pieces that they are. -/
theorem splitBody_written (parts : List Part) (line : Nat) {fuel : Nat} (pending : List Char)
    (pieces : List Piece) (hfuel : (parts.flatMap Part.written).length < fuel) :
    splitBody parseExpression line fuel pending pieces (parts.flatMap Part.written) =
      .ok (pieces.reverse ++ consPiece (.literal (String.ofList pending.reverse))
        (mergeLiterals (parts.map Part.piece))) := by
  induction parts generalizing fuel pending pieces with
  | nil =>
    obtain ⟨fuel, rfl⟩ := Nat.exists_eq_succ_of_ne_zero (Nat.ne_zero_of_lt hfuel)
    rw [List.flatMap_nil, splitBody, reverse_addLiteral]
    rfl
  | cons part parts ih =>
    rw [List.flatMap_cons] at hfuel ⊢
    rw [List.map_cons, mergeLiterals, List.foldr_cons, ← mergeLiterals]
    cases part with
    | literal text =>
      obtain ⟨fuel', hfuel', heq⟩ :=
        splitBody_doubled parseExpression line text.toList _ pending pieces hfuel
      rw [Part.written, heq, ih _ _ hfuel', Part.piece, consPiece_append]
      simp
    | field f =>
      obtain ⟨fuel, rfl⟩ := Nat.exists_eq_succ_of_ne_zero (Nat.ne_zero_of_lt hfuel)
      obtain ⟨c, cs, hsource, hc⟩ := f.source_eq_cons
      have htake := takeField_written f (parts.flatMap Part.written)
      rw [Part.written, List.cons_append, List.length_cons, List.length_append] at hfuel
      have hread : parseExpression (String.ofList (trimChars f.source.toList)) = .ok f.value := by
        rw [trimChars_eq_self f.notBlank_head f.notBlank_last, String.ofList_toList, f.parse_eq]
      rw [Part.written, List.cons_append, hsource, List.cons_append, List.cons_append, splitBody]
      · rw [← List.cons_append, ← List.cons_append, ← hsource, htake]
        dsimp only
        rw [hread]
        dsimp only
        have hafter : consPiece (.literal (String.ofList [].reverse))
            (mergeLiterals (parts.map Part.piece)) = mergeLiterals (parts.map Part.piece) :=
          consPiece_empty _
        rw [ih _ _ (by omega), hafter, f.quoted_eq, f.spec_eq, List.reverse_cons, List.append_assoc,
          List.singleton_append, reverse_addLiteral_field]
        rfl
      · rintro rest h
        exact hc (List.cons.inj h).1

/-- A composed body is split into its parts, with the expressions that the sources of its fields
have on their own. Literal texts that touch each other are merged, and empty ones are dropped. -/
theorem readFormatted_composed (parts : List Part) (line : Nat) :
    readFormatted parseExpression (composed parts) line =
        .ok (.formatted (mergeLiterals (parts.map Part.piece))) ∧
      ∀ depth, (composed parts).length ≤ depth →
        readFormatted (readSource depth) (composed parts) line =
          .ok (.formatted (mergeLiterals (parts.map Part.piece))) := by
  have hread : readFormatted parseExpression (composed parts) line =
      .ok (.formatted (mergeLiterals (parts.map Part.piece))) := by
    rw [readFormatted, composed, String.toList_ofList,
      splitBody_written parts line [] [] (Nat.lt_succ_self _), List.reverse_nil, List.nil_append]
    exact congrArg (Except.ok ∘ Expr.formatted) (consPiece_empty _)
  exact ⟨hread, fun depth hdepth => (readFormatted_readSource hdepth line).trans hread⟩

/-- The field of a name that is shown as in source code, aligned to the right. -/
def quotedName : WrittenField where
  source := "n"
  value := .name "n"
  conversion := some .quoted
  spec := some ">3"
  parse_eq := rfl
  notBlank_head := by rintro _ ⟨⟩; decide
  notBlank_last := by rintro _ ⟨⟩; decide
  notMem_marks := List.all_iff_forall_prop.mp (by decide)
  spec_ends := by decide

/-- Doubled braces touch a field, and literal texts touch each other. -/
theorem readFormatted_composed_adjacent :
    ∃ parts, composed parts = "\x7b\x7b\x7bn!r:>3\x7d\x7d\x7d!" ∧ (composed parts).length ≤ 13 ∧
      readFormatted (readSource 13) (composed parts) 1 =
        .ok (.formatted [.literal "\x7b", .field (.name "n") true (some ">3"), .literal "\x7d!"]) := by
  refine ⟨[.literal "\x7b", .field quotedName, .literal "", .literal "\x7d", .literal "!"],
    by decide +kernel, by decide +kernel, ?_⟩
  exact (readFormatted_composed _ 1).2 13 (by decide +kernel)

end NoteShell.Grammar
