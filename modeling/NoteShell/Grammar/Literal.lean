import NoteShell.Grammar.Fault
import NoteShell.Decimal.Read

/-!
# Literals

The texts and numbers written in source code, each read from the start of a list of characters.
-/

namespace NoteShell.Grammar

open NoteShell.Text
open NoteShell.Decimal

/-! ### Texts -/

/-- The character named by the hexadecimal digits of an escape, if there are `width` of them. -/
def escapedCodePoint? (width : Nat) (cs : List Char) : Option Char :=
  let digits := cs.take width
  if digits.length = width then
    match digits with
    | '-' :: _ => none
    | _ =>
      match intOfDigits? 16 digits with
      | some n => if n.toNat.isValidChar then some (Char.ofNat n.toNat) else none
      | none => none
  else none

/-- An escape other than a line end: the characters it stands for and how many characters after the
backslash it takes. -/
def decodeEscape (c : Char) (rest : List Char) : List Char × Nat :=
  match c with
  | 'n' => (['\n'], 1)
  | 't' => (['\t'], 1)
  | 'r' => (['\r'], 1)
  | '0' => (['\x00'], 1)
  | '\\' => (['\\'], 1)
  | '\'' => (['\''], 1)
  | '"' => (['"'], 1)
  | 'x' =>
    match escapedCodePoint? 2 rest with
    | some d => ([d], 3)
    | none => (['\\', 'x'], 1)
  | 'u' =>
    match escapedCodePoint? 4 rest with
    | some d => ([d], 5)
    | none => (['\\', 'u'], 1)
  | _ => (['\\', c], 1)

/-- The quotes around a text. -/
structure Quotes where
  mark : Char
  triple : Bool
  /-- Backslashes are kept together with the character after them. -/
  raw : Bool

/-- What follows an opening quote: the text up to the closing quote, the line after it and the
remaining characters. `skip` characters belong to an escape that is already decoded, `line` is the
current line and `acc` the text so far in reverse. -/
def scanText (q : Quotes) :
    (skip line : Nat) → (acc : List Char) → List Char → Except Fault (String × Nat × List Char)
  | _, line, _, [] => .error (.unterminatedText q.triple line)
  | skip + 1, line, acc, _ :: rest => scanText q skip line acc rest
  | 0, line, acc, c :: rest =>
    if c = q.mark ∧ (q.triple = false ∨ [q.mark, q.mark].isPrefixOf rest) then
      .ok (String.ofList acc.reverse, line, if q.triple then rest.drop 2 else rest)
    else if c = '\n' then
      if q.triple then scanText q 0 (line + 1) ('\n' :: acc) rest
      else .error (.unterminatedText false line)
    else if c = '\\' then
      match rest with
      | [] => scanText q 0 line ('\\' :: acc) rest
      | next :: tail =>
        let line := if next = '\n' then line + 1 else line
        if q.raw then scanText q 1 line (next :: '\\' :: acc) rest
        else if next = '\n' then scanText q 1 line acc rest
        else
          let (image, taken) := decodeEscape next tail
          scanText q taken line (image.reverseAux acc) rest
    else scanText q 0 line (c :: acc) rest

/-! ### Numbers -/

/-- A number must not run into a name. -/
def checkNumberEnd (cs : List Char) : Except Fault Unit :=
  match cs with
  | c :: _ => if isAlphanumeric c || c == '_' then .error .invalidDecimal else .ok ()
  | [] => .ok ()

/-- The characters that decimal digits are written with. -/
def isDecimalPart (c : Char) : Bool := c.isDigit || c == '_'

/-- Digits without the underscores between them. -/
def withoutUnderscores (cs : List Char) : List Char := cs.filter (· ≠ '_')

/-- The base that the second character of a number chooses after a leading zero. -/
def radixOf? : Char → Option Nat
  | 'x' | 'X' => some 16
  | 'o' | 'O' => some 8
  | 'b' | 'B' => some 2
  | _ => none

/-- An integer in another base, after its two leading characters. -/
def scanRadix (base : Nat) (cs : List Char) : Except Fault (TokenKind × List Char) := do
  let isPart := fun (c : Char) => (digitOf? base c).isSome || c == '_'
  let digits := cs.takeWhile isPart
  let rest := cs.dropWhile isPart
  match readInt64? base (withoutUnderscores digits) with
  | none => .error .invalidInteger
  | some n =>
    checkNumberEnd rest
    return (.int n, rest)

/-- An exponent, if its mark is followed by at least one digit. -/
def scanExponent (cs : List Char) : List Char × List Char :=
  match cs with
  | mark :: rest =>
    if mark = 'e' ∨ mark = 'E' then
      let (sign, digits) :=
        match rest with
        | '+' :: tail => (['+'], tail)
        | '-' :: tail => (['-'], tail)
        | _ => ([], rest)
      match digits with
      | d :: _ =>
        if d.isDigit then
          (mark :: sign ++ digits.takeWhile isDecimalPart, digits.dropWhile isDecimalPart)
        else ([], cs)
      | [] => ([], cs)
    else ([], cs)
  | [] => ([], cs)

/-- A decimal integer or float. -/
def scanDecimal (cs : List Char) : Except Fault (TokenKind × List Char) := do
  let whole := cs.takeWhile isDecimalPart
  let rest := cs.dropWhile isDecimalPart
  let (fraction, rest) :=
    match rest with
    | '.' :: tail => ('.' :: tail.takeWhile isDecimalPart, tail.dropWhile isDecimalPart)
    | _ => ([], rest)
  let (exponent, rest) := scanExponent rest
  checkNumberEnd rest
  if fraction.isEmpty && exponent.isEmpty then
    match readInt64? 10 (withoutUnderscores whole) with
    | some n => return (.int n, rest)
    | none => .error .integerTooLarge
  else
    match readFloat? (withoutUnderscores (whole ++ fraction ++ exponent)) with
    | some x => return (.float x, rest)
    | none => .error .invalidDecimal

/-- A number at the start of a text. -/
def scanNumber (cs : List Char) : Except Fault (TokenKind × List Char) :=
  match cs with
  | '0' :: mark :: rest =>
    match radixOf? mark with
    | some base => scanRadix base rest
    | none => scanDecimal cs
  | _ => scanDecimal cs

end NoteShell.Grammar
