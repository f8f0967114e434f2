import NoteShell.Decimal.Read

/-!
# Texts in TOML documents

A text stands in quotes: in double quotes with escapes, in single quotes as it is. In three quotes
it may have several lines, a line end right after the opening quotes is dropped, and up to two
quotes may stand before the closing ones. Control characters other than the tab are refused.
-/

namespace NoteShell.Toml

open NoteShell.Decimal

/-- Whether a character may stand in a comment, and so in a text. -/
def isPlainChar (c : Char) : Bool := c = '\t' || (0x20 ≤ c.toNat && c.toNat ≠ 0x7F)

/-- Whether a character is blank space within a line. -/
def isBlankChar (c : Char) : Bool := c = ' ' || c = '\t'

/-- The rest of a text after a line end. -/
def skipLineEnd? : List Char → Option (List Char)
  | '\n' :: rest => some rest
  | '\r' :: '\n' :: rest => some rest
  | _ => none

/-- The character with the code point that some digits give. -/
private def codePoint? (count : Nat) (digits : List Char) : Option Char :=
  if digits.length = count then
    (natOfDigits? 16 digits).bind fun n => if n.isValidChar then some (Char.ofNat n) else none
  else none

private def shortEscape? : Char → Option Char
  | 'b' => some '\x08'
  | 't' => some '\t'
  | 'n' => some '\n'
  | 'f' => some '\x0c'
  | 'r' => some '\r'
  | '"' => some '"'
  | '\\' => some '\\'
  | _ => none

/-- The character that an escape stands for, and the number of characters after its backslash. -/
private def escape? : List Char → Option (Char × Nat)
  | 'u' :: rest => (codePoint? 4 (rest.take 4)).map (·, 5)
  | 'U' :: rest => (codePoint? 8 (rest.take 8)).map (·, 9)
  | c :: _ => (shortEscape? c).map (·, 1)
  | [] => none

/-- The text up to a closing double quote, after `skip` characters and after those in `acc`, which
are in reverse. -/
private def takeBasic : (skip : Nat) → (acc : List Char) → List Char → Option (String × List Char)
  | _, _, [] => none
  | skip + 1, acc, _ :: rest => takeBasic skip acc rest
  | 0, acc, c :: rest =>
    if c = '"' then some (String.ofList acc.reverse, rest)
    else if c = '\\' then
      match escape? rest with
      | some (e, size) => takeBasic size (e :: acc) rest
      | none => none
    else if isPlainChar c then takeBasic 0 (c :: acc) rest
    else none

/-- The text up to a closing single quote. -/
private def takeLiteral (acc : List Char) : List Char → Option (String × List Char)
  | [] => none
  | c :: rest =>
    if c = '\'' then some (String.ofList acc.reverse, rest)
    else if isPlainChar c then takeLiteral (c :: acc) rest
    else none

/-- The number of quotes before the three that close a text here, if they do. -/
private def quotesBeforeEnd? (quote : Char) (cs : List Char) : Option Nat :=
  let run := (cs.takeWhile (· == quote)).length
  if run < 3 then none else some (min (run - 3) 2)

/-- The finished text and what follows its closing quotes, of which `before` belong to the text. -/
private def closeText (quote : Char) (before : Nat) (acc cs : List Char) : String × List Char :=
  (String.ofList (acc.reverse ++ List.replicate before quote), cs.drop (before + 3))

/-- The text up to three closing double quotes. Where `joining` is set, blank space and line ends
are left out up to the next other character. -/
private def takeLongBasic : (skip : Nat) → (joining : Bool) → (acc : List Char) → List Char →
    Option (String × List Char)
  | _, _, _, [] => none
  | skip + 1, joining, acc, _ :: rest => takeLongBasic skip joining acc rest
  | 0, joining, acc, c :: rest =>
    match quotesBeforeEnd? '"' (c :: rest), skipLineEnd? (c :: rest) with
    | some before, _ => some (closeText '"' before acc (c :: rest))
    | none, some rest' =>
      takeLongBasic (rest.length - rest'.length) joining (if joining then acc else '\n' :: acc) rest
    | none, none =>
      if joining && isBlankChar c then takeLongBasic 0 true acc rest
      else if c = '\\' then
        match escape? rest with
        | some (e, size) => takeLongBasic size false (e :: acc) rest
        | none =>
          if (skipLineEnd? (rest.dropWhile isBlankChar)).isSome then takeLongBasic 0 true acc rest
          else none
      else if isPlainChar c then takeLongBasic 0 false (c :: acc) rest
      else none

/-- The text up to three closing single quotes. -/
private def takeLongLiteral : (skip : Nat) → (acc : List Char) → List Char →
    Option (String × List Char)
  | _, _, [] => none
  | skip + 1, acc, _ :: rest => takeLongLiteral skip acc rest
  | 0, acc, c :: rest =>
    match quotesBeforeEnd? '\'' (c :: rest), skipLineEnd? (c :: rest) with
    | some before, _ => some (closeText '\'' before acc (c :: rest))
    | none, some rest' => takeLongLiteral (rest.length - rest'.length) ('\n' :: acc) rest
    | none, none => if isPlainChar c then takeLongLiteral 0 (c :: acc) rest else none

/-- A text without a line end at its start. -/
private def dropLineEnd (cs : List Char) : List Char := (skipLineEnd? cs).getD cs

/-- A text on one line, in quotes of either kind. -/
def takeShortText? : List Char → Option (String × List Char)
  | '"' :: rest => takeBasic 0 [] rest
  | '\'' :: rest => takeLiteral [] rest
  | _ => none

/-- A text in quotes. -/
def takeText? : List Char → Option (String × List Char)
  | '"' :: '"' :: '"' :: rest => takeLongBasic 0 false [] (dropLineEnd rest)
  | '\'' :: '\'' :: '\'' :: rest => takeLongLiteral 0 [] (dropLineEnd rest)
  | cs => takeShortText? cs

end NoteShell.Toml
