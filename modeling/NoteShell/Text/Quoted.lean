import NoteShell.Text.Unprintable

/-!
# Quoted texts

The form of a text as a literal: single quotes, or double quotes where the text holds single quotes
and no double ones. Backslashes, the quote itself and control characters are escaped.

The form of a text in diagnostics: double quotes around it, and an escape for every character that
could not be told apart by sight.
-/

namespace NoteShell.Text

/-! ### Literals -/

/-- The quote that a text is written with. -/
def quoteFor (cs : List Char) : Char :=
  if cs.contains '\'' && !cs.contains '"' then '"' else '\''

/-- The hexadecimal digit of a number below 16. -/
def hexDigitChar (n : Nat) : Char := (Nat.toDigits 16 n).headD '0'

/-- A character as written between quotes. -/
def quoteChar (mark c : Char) : List Char :=
  match c with
  | '\\' => ['\\', '\\']
  | '\n' => ['\\', 'n']
  | '\r' => ['\\', 'r']
  | '\t' => ['\\', 't']
  | c =>
    if c = mark then ['\\', c]
    else if c.toNat < 0x20 ∨ c.toNat = 0x7f then
      ['\\', 'x', hexDigitChar (c.toNat / 16), hexDigitChar (c.toNat % 16)]
    else [c]

/-- A text as a literal. -/
def quoted (s : String) : String :=
  let cs := s.toList
  let mark := quoteFor cs
  String.ofList (mark :: (cs.flatMap (quoteChar mark) ++ [mark]))

/-! ### Diagnostics -/

/-- Whether a character is written by its code point. -/
private def needsCodePoint (c : Char) : Bool :=
  c ≠ ' ' && (graphemeExtendChars.contains c || unprintableChars.contains c)

/-- A character as written in an escaped text. -/
def escapedChar (c : Char) : List Char :=
  match c with
  | '\x00' => ['\\', '0']
  | '\t' => ['\\', 't']
  | '\r' => ['\\', 'r']
  | '\n' => ['\\', 'n']
  | '\\' => ['\\', '\\']
  | '"' => ['\\', '"']
  | c =>
    if needsCodePoint c then ['\\', 'u', '\x7b'] ++ Nat.toDigits 16 c.toNat ++ ['\x7d'] else [c]

/-- A text with quotes around it and escapes in it. -/
def escaped (s : String) : String :=
  String.ofList ('"' :: (s.toList.flatMap escapedChar ++ ['"']))

end NoteShell.Text
