import NoteShell.Decimal.Word
import NoteShell.Script.Error
import NoteShell.Script.FloatOps
import NoteShell.Script.Value

/-!
# Arithmetic

Integers are exact: a result that does not fit 64 bits is an overflow. Quotients and remainders of
integers round to the floor, so a remainder has the sign of the divisor. Where one operand is a
float the other becomes one.
-/

namespace NoteShell.Script

open NoteShell.Grammar NoteShell.Decimal

/-- An exact integer result, if it fits 64 bits. -/
def checkedInt (i : Int) : Except EvalError Int64 :=
  match int64? i with
  | some word => .ok word
  | none => .error (.overflow .integer)

/-- A quotient that is rounded to the floor. The one that is rounded towards zero is one greater
where the division leaves a remainder and the operands have different signs. -/
def floorQuotient (x y : Int64) : Except EvalError Int64 := do
  let q ← checkedInt (x.toInt.tdiv y.toInt)
  return if x % y ≠ 0 ∧ decide (x < 0) ≠ decide (y < 0) then q - 1 else q

/-- The remainder of a division whose quotient is rounded to the floor. The other remainder has the
sign of the dividend. -/
def floorRemainder (x y : Int64) : Int64 :=
  let r := x % y
  if r ≠ 0 ∧ decide (r < 0) ≠ decide (y < 0) then r + y else r

/-- The product of `acc` with a power, by repeated squaring. All products on the way have to fit. -/
def checkedPower (acc base : Int64) (exponent : Nat) : Except EvalError Int64 := do
  let acc ← if exponent % 2 = 1 then checkedInt (acc.toInt * base.toInt) else .ok acc
  if exponent ≤ 1 then
    return acc
  else
    let square ← checkedInt (base.toInt * base.toInt)
    checkedPower acc square (exponent / 2)
termination_by exponent

/-- A power of integers with a natural exponent. The exponent may be of any size where the power is
known beforehand, and is at most 32 bits long otherwise. -/
def intPower (x : Int64) (y : Nat) : Except EvalError Int64 :=
  if x = 0 ∨ x = 1 then .ok (if y = 0 then 1 else x)
  else if x = -1 then .ok (if y % 2 = 0 then 1 else -1)
  else if y < 4294967296 then checkedPower 1 x y
  else .error (.overflow .integer)

/-- An arithmetic operation on integers. -/
def intBinary (op : BinaryOp) (x y : Int64) : Except EvalError Value :=
  match op with
  | .add => .int <$> checkedInt (x.toInt + y.toInt)
  | .sub => .int <$> checkedInt (x.toInt - y.toInt)
  | .mul => .int <$> checkedInt (x.toInt * y.toInt)
  | .div =>
    if y = 0 then .error (.zeroDivision .int) else .ok (.float (x.toFloat / y.toFloat))
  | .floorDiv =>
    if y = 0 then .error (.zeroDivision .intQuotient)
    else .int <$> floorQuotient x y
  | .mod =>
    if y = 0 then .error (.zeroDivision .intQuotient)
    else .ok (.int (floorRemainder x y))
  | .pow =>
    if y.toInt < 0 then
      if x = 0 then .error (.zeroDivision .negativePower)
      else .ok (.float (x.toFloat.pow y.toFloat))
    else .int <$> intPower x y.toInt.toNat

/-- An arithmetic operation on floats. -/
def floatBinary (op : BinaryOp) (x y : Float) : Except EvalError Value :=
  match op with
  | .add => .ok (.float (x + y))
  | .sub => .ok (.float (x - y))
  | .mul => .ok (.float (x * y))
  | .div => if y == 0 then .error (.zeroDivision .float) else .ok (.float (x / y))
  | .floorDiv =>
    if y == 0 then .error (.zeroDivision .floatQuotient) else .ok (.float (x / y).floor)
  | .mod =>
    if y == 0 then .error (.zeroDivision .floatRemainder)
    else
      let r := floatRemainder x y
      if r != 0 && decide (r < 0) != decide (y < 0) then .ok (.float (r + y)) else .ok (.float r)
  | .pow =>
    if x == 0 && y < 0 then .error (.zeroDivision .negativePower)
    else if x < 0 && !isWhole y then .error (.value .fractionalPower)
    else .ok (.float (x.pow y))

/-- An arithmetic operation on two numbers; `none` where an operand is no number. -/
def numberBinary? (op : BinaryOp) (a b : Value) : Option (Except EvalError Value) :=
  match a.asInt?, b.asInt? with
  | some x, some y => some (intBinary op x y)
  | _, _ =>
    match a.asFloat?, b.asFloat? with
    | some x, some y => some (floatBinary op x y)
    | _, _ => none

/-- A number with a sign in front. -/
def signed (sign : Sign) (v : Value) : Except EvalError Value :=
  match v with
  | .float x => .ok (.float (if sign = .minus then -x else x))
  | v =>
    match v.asInt? with
    | none => .error (.type (.badOperand sign v.typeName))
    | some i => if sign = .minus then .int <$> checkedInt (-i.toInt) else .ok (.int i)

/-- The magnitude of a number. -/
def magnitude (v : Value) : Except EvalError Value :=
  match v with
  | .float x => .ok (.float x.abs)
  | v =>
    match v.asInt? with
    | none => .error (.type (.badAbs v.typeName))
    | some i => .int <$> checkedInt i.toInt.natAbs

/-- The integer that a float becomes when its fraction is cut off. -/
def intOfFloat (x : Float) : Except EvalError Value :=
  if x.isNaN then .error (.value .nanToInt)
  else if x.isInf then .error (.overflow .infinityToInt)
  else
    let t := truncate x
    if t < -9223372036854775808 || 9223372036854775808 ≤ t then .error (.overflow .integer)
    else .ok (.int t.toInt64)

/-- The nearest multiple of a power of ten, a half going to the even multiple. Where the power does
not fit 64 bits the result is zero, and a multiple beyond 64 bits becomes the last integer. -/
def roundInt (value : Int64) (digits : Nat) : Int64 :=
  if 18 < digits then 0
  else
    let scale : Int := Nat.pow 10 digits
    let q := value.toInt / scale
    let r := value.toInt % scale
    let rounded := if scale < 2 * r then q + 1 else if 2 * r = scale ∧ q % 2 ≠ 0 then q + 1 else q
    nearestInt64 (rounded * scale)

/-- A float rounded to a number of decimal places, which may be negative. -/
def roundFloat (x : Float) (places : Int) : Float :=
  let n := max (-400) (min places 400)
  if !x.isFinite then x
  else if 0 ≤ n then
    let scale := powerBySquaring 10 n.toNat
    let scaled := x * scale
    if scaled.isInf then x else roundToEven scaled / scale
  else
    let scale := powerBySquaring 10 n.natAbs
    roundToEven (x / scale) * scale

/-- A number rounded to a number of places, or to a whole number where none is given. -/
def roundNumber (v : Value) (places : Option Int64) : Except EvalError Value :=
  match v, places with
  | .float x, none => intOfFloat (roundToEven x)
  | .float x, some n => .ok (.float (roundFloat x n.toInt))
  | v, places =>
    match v.asInt? with
    | none => .error (.type (.notRoundable v.typeName))
    | some i =>
      match places with
      | some n =>
        if n.toInt < 0 then .ok (.int (roundInt i n.toInt.natAbs)) else .ok (.int i)
      | none => .ok (.int i)

end NoteShell.Script
