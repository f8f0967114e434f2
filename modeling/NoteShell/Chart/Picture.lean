import NoteShell.Chart.Color
import NoteShell.Decimal.Word

/-!
# Pictures

A picture is a rectangle of pixels, row by row from the top left corner.
-/

namespace NoteShell

/-- A picture. -/
structure Picture where
  width : Nat
  height : Nat
  pixels : Array Color

namespace Picture

/-- A picture of one colour. -/
def filled (width height : Nat) (color : Color) : Picture :=
  ⟨width, height, Array.replicate (width * height) color⟩

/-- The colour of a pixel, if it lies in the picture. -/
def get? (p : Picture) (x y : Nat) : Option Color :=
  if x < p.width ∧ y < p.height then p.pixels[y * p.width + x]? else none

/-- The column or row that a coordinate means. Beyond 32 bits coordinates start again from zero, and
beyond 64 bits they mean none. -/
def coordinate? (i : Int) : Option Nat :=
  if 0 ≤ i ∧ i ≤ Decimal.greatestInt64 then some i.toNat.toUInt32.toNat else none

/-- A picture with a pixel set. Outside of the picture nothing happens. -/
def put (p : Picture) (x y : Int) (color : Color) : Picture :=
  match coordinate? x, coordinate? y with
  | some x, some y =>
    if x < p.width ∧ y < p.height then
      { p with pixels := p.pixels.setIfInBounds (y * p.width + x) color }
    else p
  | _, _ => p

end Picture

end NoteShell
