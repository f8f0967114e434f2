import NoteShell.Json.Basic
import NoteShell.Decimal.Binary

/-!
# Reading JSON numbers

A number is a sign, digits without a leading zero, and optionally a fraction and an exponent. Its
significand keeps the digits that fit 64 unsigned bits; further digits only shift the exponent. The
float is the significand, rounded, and then scaled by one power of ten, or by several where the
exponent is out of reach of one.
-/

namespace NoteShell.Json

open NoteShell.Decimal

def maxSignificand : Nat := 18446744073709551615

def digitOf (c : Char) : Nat := c.toNat - '0'.toNat

/-- The scaling of a rounded significand by a power of ten. `none` when the result is too large; the
number of `steps` bounds how often a factor `10 ^ 308` is split off. -/
def scale : (steps : Nat) → (x : Float) → (exponent : Int) → Option Float
  | 0, x, _ => some x
  | steps + 1, x, e =>
    if e.natAbs ≤ 308 then
      let p := Float.ofScientific 1 false e.natAbs
      if 0 ≤ e then
        let y := x * p
        if y.isInf then none else some y
      else some (x / p)
    else if x == 0 then some x
    else if 0 ≤ e then none
    else scale steps (x / 1e308) (e + 308)

def floatOf (negative : Bool) (significand : Nat) (exponent : Int) : Option Json :=
  let x := significand.toUInt64.toFloat
  (scale 8 x (max exponent (-2000))).map fun y => Json.float (if negative then -y else y)

/-- Digits after the point: as long as the significand holds them they are appended and counted. -/
def takeFraction : (significand : Nat) → (count : Nat) → List Char → Nat × Nat × List Char
  | s, n, c :: rest =>
    if c.isDigit then
      if s * 10 + digitOf c ≤ maxSignificand then takeFraction (s * 10 + digitOf c) (n + 1) rest
      else (s, n, c :: rest)
    else (s, n, c :: rest)
  | s, n, [] => (s, n, [])

/-- Digits before the point, from the first on: those that fit the significand, then the number of
those that do not. -/
def takeWhole : (significand : Nat) → List Char → Nat × List Char
  | s, c :: rest =>
    if c.isDigit then
      if s * 10 + digitOf c ≤ maxSignificand then takeWhole (s * 10 + digitOf c) rest
      else (s, c :: rest)
    else (s, c :: rest)
  | s, [] => (s, [])

def natOfDigits (cs : List Char) : Nat :=
  cs.foldl (fun n c => 10 * n + digitOf c) 0

/-- The exponent after its mark. An exponent beyond 32 bits makes the number zero or too large. -/
def readExponent (negative : Bool) (significand : Nat) (exponent : Int) (cs : List Char) :
    Option (Json × List Char) :=
  let (down, cs) :=
    match cs with
    | '-' :: rest => (true, rest)
    | '+' :: rest => (false, rest)
    | _ => (false, cs)
  let digits := cs.takeWhile Char.isDigit
  let rest := cs.dropWhile Char.isDigit
  if digits.isEmpty then none
  else
    let e := natOfDigits digits
    let number :=
      if e ≤ 2147483647 then floatOf negative significand (if down then exponent - e else exponent + e)
      else if significand ≠ 0 ∧ ¬ down then none
      else some (Json.float (if negative then -0.0 else 0.0))
    number.map (·, rest)

def readTail (negative : Bool) (significand : Nat) (exponent : Int) (cs : List Char) :
    Option (Json × List Char) :=
  match cs with
  | c :: rest =>
    if c = 'e' ∨ c = 'E' then readExponent negative significand exponent rest
    else (floatOf negative significand exponent).map (·, c :: rest)
  | [] => (floatOf negative significand exponent).map (·, [])

def readFraction (negative : Bool) (significand : Nat) (exponent : Int) (cs : List Char) :
    Option (Json × List Char) :=
  match cs with
  | c :: _ =>
    if c.isDigit then
      let (s, n, rest) := takeFraction significand 0 cs
      readTail negative s (exponent - n) (rest.dropWhile Char.isDigit)
    else none
  | [] => none

/-- What follows the digits before the point. -/
def readAfterWhole (negative : Bool) (significand : Nat) (cs : List Char) :
    Option (Json × List Char) :=
  match cs with
  | '.' :: rest => readFraction negative significand 0 rest
  | c :: rest =>
    if c = 'e' ∨ c = 'E' then readExponent negative significand 0 rest
    else if c.isDigit then
      let extra := (c :: rest).takeWhile Char.isDigit
      match (c :: rest).dropWhile Char.isDigit with
      | '.' :: tail => readFraction negative significand extra.length tail
      | tail => readTail negative significand extra.length tail
    else some (integer significand, cs)
  | [] => some (integer significand, [])
where
  /-- A whole number; negative zero and what lies below 64 signed bits are floats. -/
  integer (significand : Nat) : Json :=
    if negative then
      if significand = 0 ∨ 9223372036854775808 < significand then
        Json.float (-significand.toUInt64.toFloat)
      else Json.int (-(significand : Int))
    else Json.int significand

/-- A number at the start of a text, with the rest of the text. -/
def readNumber? (cs : List Char) : Option (Json × List Char) :=
  let (negative, cs) :=
    match cs with
    | '-' :: rest => (true, rest)
    | _ => (false, cs)
  match cs with
  | c :: rest =>
    if c = '0' then
      match rest with
      | d :: _ => if d.isDigit then none else readAfterWhole negative 0 rest
      | [] => readAfterWhole negative 0 rest
    else if c.isDigit then
      let (s, rest) := takeWhole 0 cs
      readAfterWhole negative s rest
    else none
  | [] => none

end NoteShell.Json
