import NoteShell.Json.Basic
import NoteShell.Decimal.Notation

/-!
# Writing JSON

The compact form without any space, and the indented form with one member or item on a line.
-/

namespace NoteShell.Json

open NoteShell.Decimal

/-- The hexadecimal digit of a number below 16. -/
def hexDigit (n : Nat) : Char :=
  (Nat.toDigits 16 n).headD '0'

/-- A character as written inside a quoted text. -/
def escapeChar (c : Char) : List Char :=
  match c with
  | '"' => ['\\', '"']
  | '\\' => ['\\', '\\']
  | '\x08' => ['\\', 'b']
  | '\x0c' => ['\\', 'f']
  | '\n' => ['\\', 'n']
  | '\r' => ['\\', 'r']
  | '\t' => ['\\', 't']
  | c =>
    if c.toNat < 0x20 then ['\\', 'u', '0', '0', hexDigit (c.toNat / 16), hexDigit (c.toNat % 16)]
    else [c]

/-- A text with a quoted text written after it. -/
def writeQuoted (out : String) (s : String) : String :=
  (s.foldl (fun out c => (escapeChar c).foldl String.push out) (out.push '"')).push '"'

/-- A float, or null when it is not finite. -/
private def floatForm (x : Float) : String :=
  if x.isNaN || x.isInf then "null" else jsonText x

mutual

/-- A text with the compact form of a document written after it. -/
def writeCompact (out : String) : Json → String
  | arr items => (writeItems (out ++ "[") true items) ++ "]"
  | obj members => (writeMembers (out ++ "\x7b") true members) ++ "\x7d"
  | null => out ++ "null"
  | bool b => out ++ (if b then "true" else "false")
  | int i => out ++ intText i
  | float x => out ++ floatForm x
  | str s => writeQuoted out s

/-- Items with a comma before each but the first. -/
private def writeItems (out : String) (first : Bool) : List Json → String
  | [] => out
  | item :: rest =>
    writeItems (writeCompact (if first then out else out ++ ",") item) false rest

/-- Members with a comma before each but the first. -/
private def writeMembers (out : String) (first : Bool) : List (String × Json) → String
  | [] => out
  | (key, value) :: rest =>
    let out := writeQuoted (if first then out else out ++ ",") key
    writeMembers (writeCompact (out ++ ":") value) false rest

end

/-- The compact form of a document. -/
def compact (j : Json) : String := writeCompact "" j

/-- A text with a line end and the indentation of a level written after it. -/
def newline (out : String) (level : Nat) : String :=
  out ++ "\n" ++ String.ofList (List.replicate (2 * level) ' ')

mutual

/-- A text with the indented form of a document that stands `level` levels deep written after it. -/
def writeIndented (out : String) (level : Nat) : Json → String
  | arr [] => out ++ "[]"
  | arr items => newline (writeItemLines (out ++ "[") (level + 1) true items) level ++ "]"
  | obj [] => out ++ "\x7b\x7d"
  | obj members =>
    newline (writeMemberLines (out ++ "\x7b") (level + 1) true members) level ++ "\x7d"
  | null => out ++ "null"
  | bool b => out ++ (if b then "true" else "false")
  | int i => out ++ intText i
  | float x => out ++ floatForm x
  | str s => writeQuoted out s

/-- Items on lines of their own, with a comma before each line but the first. -/
def writeItemLines (out : String) (level : Nat) (first : Bool) : List Json → String
  | [] => out
  | item :: rest =>
    let out := newline (if first then out else out ++ ",") level
    writeItemLines (writeIndented out level item) level false rest

/-- Members on lines of their own, with a comma before each line but the first. -/
def writeMemberLines (out : String) (level : Nat) (first : Bool) :
    List (String × Json) → String
  | [] => out
  | (key, value) :: rest =>
    let out := writeQuoted (newline (if first then out else out ++ ",") level) key
    writeMemberLines (writeIndented (out ++ ": ") level value) level false rest

end

/-- The indented form of a document. -/
def indented (j : Json) : String := writeIndented "" 0 j

end NoteShell.Json
