import NoteShell.Decimal.Read
import NoteShell.Script.Error
import NoteShell.Text.Quoted
import NoteShell.Text.Trim

/-!
# Numbers from texts

What the conversion functions of the language accept: blank space around a number, underscores
anywhere in it, and for integers a base from 2 to 36.
-/

namespace NoteShell.Script

open NoteShell.Text
open NoteShell.Decimal

/-- The characters of a number without blank space around it and without underscores. -/
def numeralChars (text : String) : List Char :=
  (trimChars text.toList).filter (· ≠ '_')

/-- Whether digits in a base fit 127 bits. -/
def fits127 (n : Nat) : Bool := n < 1 <<< 127

/-- The integer that a text is in a base. Digits beyond 127 bits are not accepted as a number. -/
def intOfText (text : String) (base : Int) : Except EvalError Int64 :=
  if base < 2 ∨ 36 < base then .error (.value .badBase)
  else
    let (negative, digits) :=
      match numeralChars text with
      | '-' :: rest => (true, rest)
      | '+' :: rest => (false, rest)
      | cs => (false, cs)
    match natOfDigits? base.toNat digits with
    | some n =>
      if fits127 n then
        match int64? (if negative then -(n : Int) else n) with
        | some i => .ok i
        | none => .error (.overflow .integer)
      else .error (.value (.invalidInt base (quoted text)))
    | none => .error (.value (.invalidInt base (quoted text)))

/-- The float that a text is. -/
def floatOfText (text : String) : Except EvalError Float :=
  match readFloat? (numeralChars text) with
  | some x => .ok x
  | none => .error (.value (.invalidFloat (quoted text)))

end NoteShell.Script
