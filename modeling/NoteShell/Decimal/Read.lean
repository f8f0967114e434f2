import NoteShell.Decimal.Binary
import NoteShell.Decimal.Word
import NoteShell.Text.CharClass

/-!
# Reading numbers

Texts of digits in a base, signed 64-bit integers and floats. A text is read whole or not at all.
-/

namespace NoteShell.Decimal

open NoteShell.Text

/-- The value of a text of digits in a base, read on from the value so far. -/
def readDigits (base : Nat) : (value : Nat) → List Char → Option Nat
  | value, [] => some value
  | value, c :: rest =>
    match digitOf? base c with
    | some d => readDigits base (base * value + d) rest
    | none => none

/-- The value of a non-empty text of digits in a base. -/
def natOfDigits? (base : Nat) : List Char → Option Nat
  | [] => none
  | cs => readDigits base 0 cs

/-- The value of a non-empty text of digits in a base after an optional sign. -/
def intOfDigits? (base : Nat) : List Char → Option Int
  | '-' :: rest => (natOfDigits? base rest).map fun n => -(n : Int)
  | '+' :: rest => (natOfDigits? base rest).map fun n => (n : Int)
  | cs => (natOfDigits? base cs).map fun n => (n : Int)

/-- A signed 64-bit integer in a base. -/
def readInt64? (base : Nat) (cs : List Char) : Option Int64 :=
  (intOfDigits? base cs).bind int64?

/-- An exponent after its mark: an optional sign and at least one digit. -/
private def readExponent? : List Char → Option Int
  | [] => some 0
  | mark :: rest => if mark = 'e' ∨ mark = 'E' then intOfDigits? 10 rest else none

/-- An unsigned decimal: digits with an optional point, at least one digit in all, and an optional
exponent. -/
def readScaled? (cs : List Char) : Option Scaled :=
  let whole := cs.takeWhile Char.isDigit
  let rest := cs.dropWhile Char.isDigit
  let (fraction, rest) :=
    match rest with
    | '.' :: tail => (tail.takeWhile Char.isDigit, tail.dropWhile Char.isDigit)
    | _ => ([], rest)
  if whole.isEmpty && fraction.isEmpty then none
  else
    match readExponent? rest, readDigits 10 0 (whole ++ fraction) with
    | some e, some n => some ⟨n, e - fraction.length⟩
    | _, _ => none

private def readMagnitude? (cs : List Char) : Option Float :=
  let word := String.ofList (cs.map Char.toLower)
  if word = "inf" ∨ word = "infinity" then some (1 / 0)
  else if word = "nan" then some (0 / 0)
  else (readScaled? cs).map Scaled.toFloat

/-- A float: an optional sign before a decimal, or before one of the names of infinity and of the
undefined value in either case. -/
def readFloat? : List Char → Option Float
  | '-' :: rest => (readMagnitude? rest).map fun x => -x
  | '+' :: rest => readMagnitude? rest
  | cs => readMagnitude? cs

end NoteShell.Decimal
