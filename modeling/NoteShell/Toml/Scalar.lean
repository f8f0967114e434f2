import NoteShell.Decimal.Read
import NoteShell.Toml.Basic

/-!
# Numbers, truth values and dates in TOML documents

These values are words, that is, runs of letters, digits and the signs of numbers and dates. A
single space may stand between a date and a time.
-/

namespace NoteShell.Toml

open NoteShell.Decimal

/-- Whether a character can be part of a word. -/
def isWordChar (c : Char) : Bool :=
  c.isAlphanum || c = '+' || c = '-' || c = '_' || c = '.' || c = ':'

/-- Digits with single underscores between neighbours: what is left without these. -/
private def separated? (isDigit : Char → Bool) : List Char → Option (List Char)
  | [] => none
  | [c] => if isDigit c then some [c] else none
  | c :: '_' :: rest => if isDigit c then (separated? isDigit rest).map (c :: ·) else none
  | c :: rest => if isDigit c then (separated? isDigit rest).map (c :: ·) else none

/-- A number without its sign, and whether it is negative. -/
private def splitSign : List Char → Bool × List Char
  | '-' :: rest => (true, rest)
  | '+' :: rest => (false, rest)
  | cs => (false, cs)

/-- The digits of a decimal integer, which has no leading zero. -/
private def wholeDigits? : List Char → Option (List Char)
  | ['0'] => some ['0']
  | '0' :: _ => none
  | cs => separated? Char.isDigit cs

/-- An integer of 64 bits with a sign. -/
private def fits? (i : Int) : Option Toml :=
  (int64? i).map fun _ => .int i

private def based? (base : Nat) (cs : List Char) : Option Toml := do
  let digits ← separated? (fun c => (Text.digitOf? base c).isSome) cs
  fits? (← natOfDigits? base digits)

/-- An integer in decimal digits, or in digits of another base after its mark. -/
def integer? : List Char → Option Toml
  | '0' :: 'x' :: rest => based? 16 rest
  | '0' :: 'o' :: rest => based? 8 rest
  | '0' :: 'b' :: rest => based? 2 rest
  | cs => do
    let (negative, rest) := splitSign cs
    let n ← natOfDigits? 10 (← wholeDigits? rest)
    fits? (if negative then -(n : Int) else n)

/-- The digits of a fraction, or of an exponent. -/
private def isTailChar (c : Char) : Bool := c.isDigit || c = '_'

/-- Whether an exponent stands here, with its mark, and nothing after it. -/
private def isExponent : List Char → Bool
  | c :: rest =>
    (c = 'e' || c = 'E') && (separated? Char.isDigit (splitSign rest).2).isSome
  | [] => false

/-- Whether a text is a float in decimal digits: with a fraction, an exponent, or both. -/
private def isDecimalFloat (cs : List Char) : Bool :=
  let body := (splitSign cs).2
  let whole := body.takeWhile isTailChar
  (wholeDigits? whole).isSome &&
    match body.dropWhile isTailChar with
    | '.' :: rest =>
      (separated? Char.isDigit (rest.takeWhile isTailChar)).isSome &&
        ((rest.dropWhile isTailChar).isEmpty || isExponent (rest.dropWhile isTailChar))
    | rest => isExponent rest

/-- A float. One in decimal digits must not be too large, unless it is negative. -/
def float? (cs : List Char) : Option Toml :=
  if isDecimalFloat cs then
    match readFloat? (cs.filter (· ≠ '_')) with
    | some x => if x == 1 / 0 then none else some (.float x)
    | none => none
  else if (splitSign cs).2 = ['i', 'n', 'f'] ∨ (splitSign cs).2 = ['n', 'a', 'n'] then
    (readFloat? cs).map .float
  else none

/-- A number of two digits within bounds, and the rest. -/
private def twoDigits? (least most : Nat) : List Char → Option (Nat × List Char)
  | a :: b :: rest =>
    match natOfDigits? 10 [a, b] with
    | some n => if least ≤ n ∧ n ≤ most then some (n, rest) else none
    | none => none
  | _ => none

/-- The number of days of a month. -/
def daysIn (year month : Nat) : Nat :=
  if month = 2 then
    if year % 4 = 0 ∧ (year % 100 ≠ 0 ∨ year % 400 = 0) then 29 else 28
  else if [4, 6, 9, 11].contains month then 30
  else 31

/-- The rest of a text after a date. -/
private def skipDate? : List Char → Option (List Char)
  | a :: b :: c :: d :: '-' :: rest => do
    let year ← natOfDigits? 10 [a, b, c, d]
    let (month, rest) ← twoDigits? 1 12 rest
    match rest with
    | '-' :: rest =>
      let (_, rest) ← twoDigits? 1 (daysIn year month) rest
      return rest
    | _ => none
  | _ => none

private def skipClock? (cs : List Char) : Option (List Char) := do
  let (_, rest) ← twoDigits? 0 23 cs
  match rest with
  | ':' :: rest =>
    let (_, rest) ← twoDigits? 0 59 rest
    return rest
  | _ => none

/-- The rest of a text after a time, which may have a fraction of a second. -/
private def skipTime? (cs : List Char) : Option (List Char) := do
  match ← skipClock? cs with
  | ':' :: rest =>
    let (_, rest) ← twoDigits? 0 60 rest
    match rest with
    | '.' :: c :: rest => if c.isDigit then return rest.dropWhile Char.isDigit else none
    | '.' :: [] => none
    | rest => return rest
  | _ => none

/-- Whether a text is empty or the distance of a time from universal time. -/
private def isOffset : List Char → Bool
  | [] | ['Z'] | ['z'] => true
  | '+' :: rest | '-' :: rest => skipClock? rest == some []
  | _ => false

/-- Whether a text is a time after a date. -/
private def isTimeOfDay (cs : List Char) : Bool :=
  match skipTime? cs with
  | some rest => isOffset rest
  | none => false

/-- Whether a word is a date, a time, or both. -/
private def isMoment (cs : List Char) : Bool :=
  match skipDate? cs with
  | some [] => true
  | some (c :: rest) => (c = 'T' || c = 't') && isTimeOfDay rest
  | none => skipTime? cs == some []

/-- The value that a word is. -/
def scalar? (word : List Char) : Option Toml :=
  if word = ['t', 'r', 'u', 'e'] then some (.bool true)
  else if word = ['f', 'a', 'l', 's', 'e'] then some (.bool false)
  else if isMoment word then some (.moment (String.ofList word))
  else (float? word).or (integer? word)

/-- A value at the start of a text that is one word, or a date and a time. -/
def takeScalar? (cs : List Char) : Option (Toml × List Char) :=
  let word := cs.takeWhile isWordChar
  let rest := cs.dropWhile isWordChar
  match skipDate? word, rest with
  | some [], ' ' :: c :: rest' =>
    if isWordChar c then
      let time := (c :: rest').takeWhile isWordChar
      if isTimeOfDay time then
        some (.moment (String.ofList (word ++ ' ' :: time)), (c :: rest').dropWhile isWordChar)
      else none
    else some (.moment (String.ofList word), rest)
  | _, _ => (scalar? word).map (·, rest)

end NoteShell.Toml
