import NoteShell.Decimal.Binary

/-!
# Operations on floats

Remainders and roundings of floats, computed on their exact values where the hardware has no such
operation.
-/

namespace NoteShell.Script

open NoteShell.Decimal

/-- The float `n * 2 ^ e` for a number that a float can hold. -/
private def ofScaled (negative : Bool) (n : Nat) (e : Int) : Float :=
  let x := Float.scaleB n.toUInt64.toFloat e
  if negative then -x else x

/-- A float without its fraction. -/
def truncate (x : Float) : Float := if x < 0 then x.ceil else x.floor

/-- Whether a float is a whole number. -/
def isWhole (x : Float) : Bool := x.isFinite && truncate x == x

/-- The remainder of a division whose quotient is rounded towards zero. It is exact and has the sign
of the dividend. -/
def floatRemainder (x y : Float) : Float :=
  if x.isNaN || y.isNaN || x.isInf || y == 0 then 0.0 / 0.0
  else if y.isInf then x
  else
    let a := Binary.ofFloat x
    let b := Binary.ofFloat y
    let e := min a.exponent b.exponent
    let n := a.mantissa <<< (a.exponent - e).toNat
    let d := b.mantissa <<< (b.exponent - e).toNat
    ofScaled (isNegative x) (n % d) e

/-- The nearest whole number, a half going to the even neighbour. -/
def roundToEven (x : Float) : Float :=
  if x.isFinite then
    let b := Binary.ofFloat x
    if 0 ≤ b.exponent then x
    else ofScaled (isNegative x) (b.roundTo 0) 0
  else x

/-- A power by repeated squaring. The factors are multiplied in the order of the binary digits of
the exponent, from the lowest on. -/
def powerBySquaring (base : Float) (exponent : Nat) : Float :=
  go 64 base exponent 1
where
  /-- The product of `acc` with a power; `steps` bounds the number of binary digits. -/
  go : (steps : Nat) → (base : Float) → (exponent : Nat) → (acc : Float) → Float
    | 0, _, _, acc => acc
    | steps + 1, base, exponent, acc =>
      let acc := if exponent % 2 = 1 then acc * base else acc
      if exponent / 2 = 0 then acc else go steps (base * base) (exponent / 2) acc

end NoteShell.Script
