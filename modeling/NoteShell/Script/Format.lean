import NoteShell.Script.Repr

/-!
# Format specifications

The text after the colon of a field: an optional fill character and alignment, a plus sign, a zero
for padding after the sign, a width, a comma for groups of thousands, a precision and a kind.
-/

namespace NoteShell.Script

open NoteShell.Decimal

/-- Where a text stands in a wider field. -/
inductive Alignment where
  | left
  | right
  | center
  /-- The padding stands between the sign and the digits. -/
  | afterSign
deriving DecidableEq

/-- The largest width or precision. -/
def maxFormatWidth : Nat := 10000

/-- A format specification. -/
structure FormatSpec where
  fill : Char
  alignment : Option Alignment
  plus : Bool
  width : Nat
  grouping : Bool
  precision : Option Nat
  kind : Option Char

namespace FormatSpec

private def alignmentOf? : Char → Option Alignment
  | '<' => some .left
  | '>' => some .right
  | '^' => some .center
  | _ => none

private def takeAlignment (cs : List Char) : Char × Option Alignment × List Char :=
  match cs with
  | [] => (' ', none, [])
  | [c] =>
    match alignmentOf? c with
    | some a => (' ', some a, [])
    | none => (' ', none, cs)
  | c :: d :: rest =>
    match alignmentOf? d with
    | some a => (c, some a, rest)
    | none =>
      match alignmentOf? c with
      | some a => (' ', some a, d :: rest)
      | none => (' ', none, cs)

private def numberOf (digits : List Char) : Nat :=
  digits.foldl (fun n c => 10 * n + (c.toNat - '0'.toNat)) 0

private def checkNumber (digits : List Char) : Except EvalError Nat :=
  let n := numberOf digits
  if n ≤ maxFormatWidth then .ok n
  else .error (.value (.formatLimit (String.ofList digits)))

private def takeFlag (flag : Char) (cs : List Char) : Bool × List Char :=
  match cs with
  | c :: rest => if c = flag then (true, rest) else (false, cs)
  | [] => (false, [])

/-- The specification that a text is; `invalid` is the error for other texts. -/
def parse (invalid : EvalError) (cs : List Char) : Except EvalError FormatSpec := do
  let (fill, alignment, cs) := takeAlignment cs
  let (plus, cs) := takeFlag '+' cs
  let (zero, cs) := if alignment.isNone then takeFlag '0' cs else (false, cs)
  let fill := if zero then '0' else fill
  let alignment := if zero then some .afterSign else alignment
  let digits := cs.takeWhile Char.isDigit
  let cs := cs.dropWhile Char.isDigit
  let width ← checkNumber digits
  let (grouping, cs) := takeFlag ',' cs
  let (point, cs) := takeFlag '.' cs
  let places := if point then cs.takeWhile Char.isDigit else []
  let cs := if point then cs.dropWhile Char.isDigit else cs
  if point && places.isEmpty then
    throw invalid
  let precision ← if point then some <$> checkNumber places else pure none
  match cs with
  | [] => return ⟨fill, alignment, plus, width, grouping, precision, none⟩
  | [kind] => return ⟨fill, alignment, plus, width, grouping, precision, some kind⟩
  | _ => throw invalid

/-- The alignments that a character asks for, with these characters. -/
def alignmentMarks : List (Char × Alignment) := [('<', .left), ('>', .right), ('^', .center)]

/-- A flag that is there is taken. -/
private theorem takeFlag_append {flag : Char} (given : Bool) {cs : List Char}
    (hcs : ∀ c ∈ cs.head?, c ≠ flag) :
    takeFlag flag ((if given then [flag] else []) ++ cs) = (given, cs) := by
  cases given with
  | true => exact if_pos rfl
  | false =>
    cases cs with
    | nil => rfl
    | cons c cs => exact if_neg (hcs c rfl)

/-- The digits of a number within the limit are read as the number. -/
private theorem checkNumber_toDigits {n : Nat} (h : n ≤ maxFormatWidth) :
    checkNumber (Nat.toDigits 10 n) = .ok n := by
  have hnumber : numberOf (Nat.toDigits 10 n) = n :=
    Nat.ofDigitChars_toDigits (by decide) (by decide)
  rw [checkNumber, hnumber]
  exact if_pos h

/-- A specification with a fill character, an alignment, a width and a kind. -/
theorem parse_aligned (invalid : EvalError) (fill : Char) {mark : Char} {side : Alignment}
    (hmark : (mark, side) ∈ alignmentMarks) (plus comma : Bool)
    {width : Nat} (hwidth : width ≤ maxFormatWidth) {kind : Char} (hdigit : kind.isDigit = false)
    (hkind : kind ≠ ',' ∧ kind ≠ '.') :
    parse invalid (fill :: mark :: ((if plus then ['+'] else []) ++ (Nat.toDigits 10 width ++
      ((if comma then [','] else []) ++ [kind])))) =
        .ok ⟨fill, some side, plus, width, comma, none, some kind⟩ := by
  have hdigits : ∀ c ∈ Nat.toDigits 10 width, c.isDigit = true := fun c hc =>
    Nat.isDigit_of_mem_toDigits (by decide) (by decide) hc
  have halign (rest : List Char) :
      takeAlignment (fill :: mark :: rest) = (fill, some side, rest) := by
    simp only [alignmentMarks, List.mem_cons, Prod.mk.injEq, List.not_mem_nil, or_false] at hmark
    rcases hmark with ⟨rfl, rfl⟩ | ⟨rfl, rfl⟩ | ⟨rfl, rfl⟩ <;> rfl
  have hplus (rest : List Char) : takeFlag '+' ((if plus then ['+'] else []) ++
      (Nat.toDigits 10 width ++ rest)) = (plus, Nat.toDigits 10 width ++ rest) := by
    refine takeFlag_append plus fun c hc => ?_
    obtain ⟨d, ds, hds⟩ := List.exists_cons_of_ne_nil (Nat.toDigits_ne_nil (n := width) (b := 10))
    rw [hds] at hc hdigits
    obtain rfl : d = c := Option.some.inj hc
    rintro rfl
    exact absurd (hdigits '+' List.mem_cons_self) (by decide)
  have hcomma : takeFlag ',' ((if comma then [','] else []) ++ [kind]) = (comma, [kind]) :=
    takeFlag_append comma fun c hc => Option.some.inj hc ▸ hkind.1
  have hpoint : takeFlag '.' [kind] = (false, [kind]) := if_neg hkind.2
  have hends : ∀ c ∈ ((if comma then [','] else []) ++ [kind]).head?, c.isDigit = false := by
    intro c hc
    cases comma with
    | true => exact Option.some.inj hc ▸ rfl
    | false => exact Option.some.inj hc ▸ hdigit
  generalize (if comma then [','] else []) ++ [kind] = rest at hcomma hends
  have hsplit : (Nat.toDigits 10 width ++ rest).takeWhile Char.isDigit = Nat.toDigits 10 width ∧
      (Nat.toDigits 10 width ++ rest).dropWhile Char.isDigit = rest := by
    rw [List.takeWhile_append_of_pos hdigits, List.dropWhile_append_of_pos hdigits]
    cases rest with
    | nil => simp
    | cons c rest =>
      have hc : ¬ c.isDigit = true := Bool.eq_false_iff.mp (hends c rfl)
      rw [List.takeWhile_cons_of_neg hc, List.dropWhile_cons_of_neg hc, List.append_nil]
      exact ⟨rfl, rfl⟩
  simp only [parse, halign, hplus, Option.isNone_some, Bool.false_eq_true, if_false,
    hsplit.1, hsplit.2,
    checkNumber_toDigits hwidth, hcomma, hpoint, bind, Except.bind, pure, Except.pure,
    Bool.false_and]

end FormatSpec

/-- The text of a value before grouping and padding. -/
private def formatBody (h : Heap) (invalid : EvalError) (spec : FormatSpec) (v : Value) :
    Except EvalError String :=
  match spec.kind, v with
  | some 's', .str s =>
    .ok (match spec.precision with
      | some n => String.ofList (s.toList.take n)
      | none => s)
  | some kind, v =>
    match v.asFloat? with
    | none => .error invalid
    | some x =>
      if kind = 'f' ∨ kind = 'F' then .ok (fixedText (spec.precision.getD 6) x)
      else if kind = '%' then .ok (fixedText (spec.precision.getD 6) (x * 100) ++ "%")
      else if kind = 'e' then .ok (exponentialText (spec.precision.getD 6) x)
      else if kind = 'd' then
        match v.asInt? with
        | some i => .ok (intText i.toInt)
        | none => .error invalid
      else .error invalid
  | none, .float x =>
    .ok (match spec.precision with
      | some n => fixedText n x
      | none => floatText x)
  | none, .str s =>
    .ok (match spec.precision with
      | some n => String.ofList (s.toList.take n)
      | none => s)
  | none, v =>
    if v.isNumber || v.isNone || spec.width = 0 then .ok (strValue h v) else .error invalid

/-- Digits with a comma before every group of three from the right. -/
def groupDigits : List Char → List Char
  | [] => []
  | c :: rest =>
    if rest ≠ [] ∧ rest.length % 3 = 0 then c :: ',' :: groupDigits rest
    else c :: groupDigits rest

/-- A number with commas between groups of three of its leading digits. -/
def groupThousands (cs : List Char) : List Char :=
  let (sign, rest) :=
    match cs with
    | '-' :: rest => (['-'], rest)
    | _ => ([], cs)
  sign ++ groupDigits (rest.takeWhile Char.isDigit) ++ rest.dropWhile Char.isDigit

/-- A text padded to a width. -/
def padTo (width : Nat) (fill : Char) (alignment : Alignment) (cs : List Char) : List Char :=
  let missing := width - cs.length
  match alignment with
  | .left => cs ++ List.replicate missing fill
  | .right => List.replicate missing fill ++ cs
  | .center =>
    List.replicate (missing / 2) fill ++ cs ++ List.replicate (missing - missing / 2) fill
  | .afterSign =>
    match cs with
    | '-' :: rest => '-' :: (List.replicate missing fill ++ rest)
    | '+' :: rest => '+' :: (List.replicate missing fill ++ rest)
    | _ => List.replicate missing fill ++ cs

/-- The text of a value in a format. -/
def formatValue (h : Heap) (v : Value) (text : String) : Except EvalError String := do
  let invalid := EvalError.value (.invalidFormat text v.typeName)
  let spec ← FormatSpec.parse invalid text.toList
  let body ← formatBody h invalid spec v
  let cs := if spec.grouping then groupThousands body.toList else body.toList
  let cs := if spec.plus && v.isNumber && cs.head? != some '-' then '+' :: cs else cs
  let alignment := spec.alignment.getD (if v.isNumber then .right else .left)
  return String.ofList (padTo spec.width spec.fill alignment cs)

end NoteShell.Script
