/-!
# Floating-point numbers as exact binary and decimal quantities

A finite float is a natural number times a power of two, and a decimal number is a natural number
times a power of ten. All conversions between the two are computed on these exact forms, and so is
the rounding to a number of decimal places or of significant digits.
-/

namespace NoteShell.Decimal

/-- The magnitude `mantissa * 2 ^ exponent` of a finite float. `narrowBelow` records that the float
below it is only half as far away as the float above it. -/
structure Binary where
  mantissa : Nat
  exponent : Int
  narrowBelow : Bool
deriving DecidableEq

/-- The magnitude of the finite float with the given bits. -/
def Binary.ofBits (bits : UInt64) : Binary :=
  let fraction : Nat := bits.toNat % (1 <<< 52)
  let biased : Nat := (bits.toNat >>> 52) % (1 <<< 11)
  if biased = 0 then ⟨fraction, -1074, false⟩
  else ⟨fraction + (1 <<< 52), (biased : Int) - 1075, fraction == 0 && 1 < biased⟩

/-- The magnitude of a finite float. -/
def Binary.ofFloat (x : Float) : Binary :=
  Binary.ofBits x.toBits

/-- The sign of a float, which zero and the undefined value have too. -/
def isNegative (x : Float) : Bool :=
  (1 <<< 63) ≤ x.toBits.toNat

/-- The decimal number `coefficient * 10 ^ exponent`. -/
structure Scaled where
  coefficient : Nat
  exponent : Int
deriving DecidableEq

/-- The number of decimal digits of a natural number, none for zero. -/
def digitCount (n : Nat) : Nat :=
  if n = 0 then 0 else digitCount (n / 10) + 1
termination_by n
decreasing_by omega

/-- The exponent of the power of ten that the leading digit stands for. -/
def Scaled.leadingExponent (d : Scaled) : Int :=
  d.exponent + digitCount d.coefficient - 1

/-- The float nearest to a decimal number. Decimals far outside the range of floats are decided by
their leading digit. -/
def Scaled.toFloat (d : Scaled) : Float :=
  if d.coefficient = 0 then 0
  else if 400 < d.leadingExponent then 1 / 0
  else if d.leadingExponent < -400 then 0
  else if d.exponent < 0 then Float.ofScientific d.coefficient true d.exponent.natAbs
  else Float.ofScientific d.coefficient false d.exponent.natAbs

/-- The integer nearest to `num / den`, a half going to the even neighbour. -/
def roundDiv (num den : Nat) : Nat :=
  let q := num / den
  let r := num % den
  if 2 * r < den then q
  else if 2 * r = den then q + q % 2
  else q + 1

/-- The nearest multiple of `10 ^ grid`, in units of `10 ^ grid`. -/
def Binary.roundTo (b : Binary) (grid : Int) : Nat :=
  roundDiv ((b.mantissa * Nat.pow 10 (-grid).toNat) <<< b.exponent.toNat)
    (Nat.pow 10 grid.toNat <<< (-b.exponent).toNat)

end NoteShell.Decimal
