import NoteShell.Decimal.Shortest
import NoteShell.Decimal.Binary

/-!
# Written forms of numbers

Positional and scientific notation for decimal numbers, and the float formats made from them: the
language's own format, the plain format of spreadsheet cells, the format of JSON numbers, fixed
places and fixed significant digits.
-/

namespace NoteShell.Decimal

/-- The decimal digits of a natural number. -/
def natText (n : Nat) : String :=
  String.ofList (Nat.toDigits 10 n)

/-- The decimal digits of an integer after its sign. -/
def intText (i : Int) : String :=
  if i < 0 then "-" ++ natText i.natAbs else natText i.natAbs

/-- Zeros in front of a text up to a width. -/
def padZeros (width : Nat) (s : String) : String :=
  String.ofList (List.replicate (width - s.length) '0') ++ s

/-- A natural number in units of `10 ^ -places`, with exactly `places` digits after the point. -/
def withPlaces (places : Nat) (units : Nat) : String :=
  if places = 0 then natText units
  else
    let scale := Nat.pow 10 places
    natText (units / scale) ++ "." ++ padZeros places (natText (units % scale))

/-- Positional notation with no more digits after the point than there are. -/
def Scaled.positional (d : Scaled) : String :=
  if d.exponent < 0 then withPlaces d.exponent.natAbs d.coefficient
  else natText (d.coefficient * Nat.pow 10 d.exponent.natAbs)

/-- The digits of a number with a point after the first one. -/
def Scaled.mantissaText (d : Scaled) : String :=
  withPlaces (digitCount d.coefficient - 1) d.coefficient

/-- An exponent with its sign and at least the given number of digits. -/
def exponentText (digits : Nat) (e : Int) : String :=
  (if e < 0 then "-" else "+") ++ padZeros digits (natText e.natAbs)

/-- The sign written in front of a float. -/
def signText (x : Float) : String :=
  if isNegative x then "-" else ""

private def shortestOf (tie : Tie) (x : Float) : Scaled :=
  let b := Binary.ofFloat x
  if b.mantissa = 0 then ⟨0, 0⟩ else b.shortest tie

/-- The language's float format: fewest digits, positional from `1e-04` up to `1e+16` and then
always with a point. -/
def floatText (x : Float) : String :=
  if x.isNaN then "nan"
  else if x.isInf then signText x ++ "inf"
  else
    let d := shortestOf .up x
    let e := d.leadingExponent
    if d.coefficient ≠ 0 ∧ (e < -4 ∨ 16 ≤ e) then
      signText x ++ d.mantissaText ++ "e" ++ exponentText 2 e
    else signText x ++ d.positional ++ (if d.exponent < 0 then "" else ".0")

/-- The plain format: fewest digits, always positional, whole numbers without a point. -/
def plainText (x : Float) : String :=
  if x.isNaN then "NaN"
  else if x.isInf then signText x ++ "inf"
  else signText x ++ (shortestOf .up x).positional

/-- The format of JSON numbers: fewest digits, positional from `1e-5` up to `1e16` and then always
with a point. -/
def jsonText (x : Float) : String :=
  let d := shortestOf .toEven x
  let e := d.leadingExponent
  if d.coefficient ≠ 0 ∧ (e < -5 ∨ 16 ≤ e) then
    signText x ++ d.mantissaText ++ "e" ++ exponentText 1 e
  else signText x ++ d.positional ++ (if d.exponent < 0 then "" else ".0")

/-- A float rounded to a number of places after the point. -/
def fixedText (places : Nat) (x : Float) : String :=
  if x.isNaN then "NaN"
  else if x.isInf then signText x ++ "inf"
  else signText x ++ withPlaces places ((Binary.ofFloat x).roundTo (-(places : Int)))

/-- A float rounded to a number of digits after the leading one, with an exponent. -/
def exponentialText (places : Nat) (x : Float) : String :=
  if x.isNaN then "NaN"
  else if x.isInf then signText x ++ "inf"
  else
    let b := Binary.ofFloat x
    if b.mantissa = 0 then signText x ++ withPlaces places 0 ++ "e+00"
    else
      let e := b.leadingExponent
      let units := b.roundTo (e - places)
      let (units, e) := if Nat.pow 10 (places + 1) ≤ units then (units / 10, e + 1) else (units, e)
      signText x ++ withPlaces places units ++ "e" ++ exponentText 2 e

end NoteShell.Decimal
