import NoteShell.Decimal.Binary

/-!
# Fewest digits

The decimal number with the fewest digits among those that read back as a given float. Grids of one,
two and more digits are tried in turn; on each grid only the two neighbours of the float can lie
close enough, and of two that do the nearer is taken.
-/

namespace NoteShell.Decimal

/-- What to do with a number half-way between two neighbours. -/
inductive Tie where
  | up
  | toEven
deriving DecidableEq

/-- The exponent of the leading decimal digit of `mantissa * 2 ^ exponent`. -/
def Binary.leadingExponent (b : Binary) : Int :=
  let num := b.mantissa <<< b.exponent.toNat
  let den := 1 <<< (-b.exponent).toNat
  if den ≤ num then (digitCount (num / den) : Int) - 1 else -(digitCount ((den - 1) / num) : Int)

/-- The multiple of `10 ^ grid` nearest to a float, if it reads back as that float. -/
def Binary.onGrid? (tie : Tie) (b : Binary) (grid : Int) : Option Nat :=
  let p := Nat.pow 10 (-grid).toNat <<< b.exponent.toNat
  let q := Nat.pow 10 grid.toNat <<< (-b.exponent).toNat
  let below := b.mantissa * p / q
  let gapBelow := b.mantissa * p - below * q
  let gapAbove := (below + 1) * q - b.mantissa * p
  let reads (gap reach : Nat) : Bool :=
    if b.mantissa % 2 = 0 then 4 * gap ≤ reach else 4 * gap < reach
  let readsBelow := reads gapBelow (if b.narrowBelow then p else 2 * p)
  let readsAbove := reads gapAbove (2 * p)
  match readsBelow, readsAbove with
  | true, true =>
    let takeAbove :=
      if gapAbove = gapBelow then
        match tie with
        | .up => true
        | .toEven => below % 2 = 1
      else decide (gapAbove < gapBelow)
    some (if takeAbove then below + 1 else below)
  | true, false => some below
  | false, true => some (below + 1)
  | false, false => none

/-- The same number without trailing zeros; `steps` bounds how many are looked for. -/
private def stripZeros : (steps : Nat) → Scaled → Scaled
  | 0, d => d
  | steps + 1, d =>
    if d.coefficient ≠ 0 ∧ d.coefficient % 10 = 0 then
      stripZeros steps ⟨d.coefficient / 10, d.exponent + 1⟩
    else d

/-- The decimal with the fewest digits that reads back as a non-zero float. Seventeen digits are
always enough. -/
def Binary.shortest (tie : Tie) (b : Binary) : Scaled :=
  let grids := (List.range 17).map fun (n : Nat) => b.leadingExponent - n
  match grids.findSome? fun g => (b.onGrid? tie g).map (Scaled.mk · g) with
  | some d => stripZeros 17 d
  | none => ⟨b.mantissa * Nat.pow 5 (-b.exponent).toNat <<< b.exponent.toNat, min b.exponent 0⟩

end NoteShell.Decimal
