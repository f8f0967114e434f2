import NoteShell.Json.Number

/-!
# Reading JSON

A document is read from a list of characters by descent on the nesting depth that is still allowed:
containers may nest up to 127 levels. Texts must not hold control characters or escaped halves of
surrogate pairs.
-/

namespace NoteShell.Json

/-- The deepest nesting of arrays and objects that is read. -/
def maxNesting : Nat := 127

/-- The characters that may stand between the parts of a document. -/
def isSpace (c : Char) : Bool :=
  c == ' ' || c == '\n' || c == '\t' || c == '\r'

/-- A text without the space at its start. -/
def skipSpace (cs : List Char) : List Char :=
  cs.dropWhile isSpace

/-- The value of a hexadecimal digit. -/
def hexDigit? (c : Char) : Option Nat :=
  if '0' ≤ c && c ≤ '9' then some (c.toNat - '0'.toNat)
  else if 'a' ≤ c && c ≤ 'f' then some (c.toNat - 'a'.toNat + 10)
  else if 'A' ≤ c && c ≤ 'F' then some (c.toNat - 'A'.toNat + 10)
  else none

/-- The value of four hexadecimal digits. -/
def hex4? (a b c d : Char) : Option Nat := do
  let a ← hexDigit? a
  let b ← hexDigit? b
  let c ← hexDigit? c
  let d ← hexDigit? d
  some (((a * 16 + b) * 16 + c) * 16 + d)

/-- The character that a backslash and one further character stand for. -/
def simpleEscape? : Char → Option Char
  | '"' => some '"'
  | '\\' => some '\\'
  | '/' => some '/'
  | 'b' => some '\x08'
  | 'f' => some '\x0c'
  | 'n' => some '\n'
  | 'r' => some '\r'
  | 't' => some '\t'
  | _ => none

/-- The rest of a text after its opening quote. `pending` is the first half of a surrogate pair that
the next escape has to complete; `acc` holds the characters so far in reverse. -/
def readText (pending : Option Nat) (acc : List Char) :
    List Char → Option (String × List Char)
  | [] => none
  | '\\' :: 'u' :: a :: b :: c :: d :: rest =>
    match hex4? a b c d, pending with
    | some n, none =>
      if 0xD800 ≤ n ∧ n < 0xDC00 then readText (some n) acc rest
      else if 0xDC00 ≤ n ∧ n < 0xE000 then none
      else readText none (Char.ofNat n :: acc) rest
    | some n, some high =>
      if 0xDC00 ≤ n ∧ n < 0xE000 then
        readText none (Char.ofNat (0x10000 + (high - 0xD800) * 0x400 + (n - 0xDC00)) :: acc) rest
      else none
    | none, _ => none
  | '\\' :: e :: rest =>
    match simpleEscape? e, pending with
    | some c, none => readText none (c :: acc) rest
    | _, _ => none
  | c :: rest =>
    if pending.isSome || c.toNat < 0x20 || c == '\\' then none
    else if c == '"' then some (String.ofList acc.reverse, rest)
    else readText none (c :: acc) rest

/-- A reader takes a value from the start of a text and leaves the rest. -/
abbrev Reader := List Char → Option (Json × List Char)

/-- The items of an array after its first bracket or a comma, each read by `value`. -/
def readItems (value : Reader) : (fuel : Nat) → (acc : List Json) → Reader
  | 0, _, _ => none
  | fuel + 1, acc, cs =>
    match value (skipSpace cs) with
    | none => none
    | some (item, rest) =>
      match skipSpace rest with
      | ',' :: rest => readItems value fuel (item :: acc) rest
      | ']' :: rest => some (arr (item :: acc).reverse, rest)
      | _ => none

/-- The members of an object after its first brace or a comma, each value read by `value`. -/
def readMembers (value : Reader) : (fuel : Nat) → (acc : List (String × Json)) → Reader
  | 0, _, _ => none
  | fuel + 1, acc, cs =>
    match skipSpace cs with
    | '"' :: rest =>
      match readText none [] rest with
      | none => none
      | some (key, rest) =>
        match skipSpace rest with
        | ':' :: rest =>
          match value (skipSpace rest) with
          | none => none
          | some (item, rest) =>
            match skipSpace rest with
            | ',' :: rest => readMembers value fuel ((key, item) :: acc) rest
            | '}' :: rest => some (object ((key, item) :: acc).reverse, rest)
            | _ => none
        | _ => none
    | _ => none

/-- A value without containers. -/
def readScalar (cs : List Char) : Option (Json × List Char) :=
  match cs with
  | 'n' :: 'u' :: 'l' :: 'l' :: rest => some (null, rest)
  | 't' :: 'r' :: 'u' :: 'e' :: rest => some (bool true, rest)
  | 'f' :: 'a' :: 'l' :: 's' :: 'e' :: rest => some (bool false, rest)
  | '"' :: rest => (readText none [] rest).map fun (s, rest) => (str s, rest)
  | _ => readNumber? cs

/-- A value whose containers nest at most `depth` levels. -/
def readValue : (depth : Nat) → Reader
  | 0, cs => readScalar cs
  | depth + 1, cs =>
    match cs with
    | '[' :: rest =>
      match skipSpace rest with
      | ']' :: rest => some (arr [], rest)
      | rest => readItems (readValue depth) (rest.length + 1) [] rest
    | '{' :: rest =>
      match skipSpace rest with
      | '}' :: rest => some (obj [], rest)
      | rest => readMembers (readValue depth) (rest.length + 1) [] rest
    | _ => readScalar cs

/-- The document that a text holds, with nothing but space around it. -/
def parse? (text : String) : Option Json :=
  match readValue maxNesting (skipSpace text.toList) with
  | some (value, rest) => if (skipSpace rest).isEmpty then some value else none
  | none => none

end NoteShell.Json
