/-!
# Bytes as text

UTF-8 text is read unit by unit: a unit is a character, a sequence of bytes that cannot begin any
character, or a character that the end of the text cuts off. A strict reader stops at the first bad
unit and says where it is; a lenient reader puts the replacement character in its place.
-/

namespace NoteShell.Text

/-- A sequence of bytes. -/
abbrev Bytes := List UInt8

/-- A unit of a byte text. -/
inductive Utf8Unit where
  | char (c : Char) (size : Nat)
  | invalid (size : Nat)
  | incomplete
deriving DecidableEq

/-- Whether a byte may follow the first byte of a character of two bytes. -/
def isTail (b : UInt8) : Bool := 0x80 ≤ b && b ≤ 0xBF

/-- Whether a byte may follow the first byte of a character of three bytes. -/
def isSecondOfThree (a b : UInt8) : Bool :=
  if a = 0xE0 then 0xA0 ≤ b && b ≤ 0xBF
  else if a = 0xED then 0x80 ≤ b && b ≤ 0x9F
  else isTail b

/-- Whether a byte may follow the first byte of a character of four bytes. -/
def isSecondOfFour (a b : UInt8) : Bool :=
  if a = 0xF0 then 0x90 ≤ b && b ≤ 0xBF
  else if a = 0xF4 then 0x80 ≤ b && b ≤ 0x8F
  else isTail b

/-- The bits of a character that a following byte holds. -/
def low6 (b : UInt8) : Nat := b.toNat % 64

/-- The units of a byte text, added in reverse to those in `acc`. -/
def unitsLoop (acc : List Utf8Unit) : Bytes → List Utf8Unit
  | [] => acc.reverse
  | a :: rest =>
    if a < 0x80 then unitsLoop (.char (Char.ofNat a.toNat) 1 :: acc) rest
    else if 0xC2 ≤ a && a ≤ 0xDF then
      match rest with
      | [] => (.incomplete :: acc).reverse
      | b :: rest' =>
        if isTail b then
          unitsLoop (.char (Char.ofNat (a.toNat % 32 * 64 + low6 b)) 2 :: acc) rest'
        else unitsLoop (.invalid 1 :: acc) (b :: rest')
    else if 0xE0 ≤ a && a ≤ 0xEF then
      match rest with
      | [] => (.incomplete :: acc).reverse
      | b :: rest' =>
        if !isSecondOfThree a b then unitsLoop (.invalid 1 :: acc) (b :: rest')
        else
          match rest' with
          | [] => (.incomplete :: acc).reverse
          | c :: rest'' =>
            if isTail c then
              let n := (a.toNat % 16 * 64 + low6 b) * 64 + low6 c
              unitsLoop (.char (Char.ofNat n) 3 :: acc) rest''
            else unitsLoop (.invalid 2 :: acc) (c :: rest'')
    else if 0xF0 ≤ a && a ≤ 0xF4 then
      match rest with
      | [] => (.incomplete :: acc).reverse
      | b :: rest' =>
        if !isSecondOfFour a b then unitsLoop (.invalid 1 :: acc) (b :: rest')
        else
          match rest' with
          | [] => (.incomplete :: acc).reverse
          | c :: rest'' =>
            if !isTail c then unitsLoop (.invalid 2 :: acc) (c :: rest'')
            else
              match rest'' with
              | [] => (.incomplete :: acc).reverse
              | d :: rest''' =>
                if isTail d then
                  let n := ((a.toNat % 8 * 64 + low6 b) * 64 + low6 c) * 64 + low6 d
                  unitsLoop (.char (Char.ofNat n) 4 :: acc) rest'''
                else unitsLoop (.invalid 3 :: acc) (d :: rest''')
    else unitsLoop (.invalid 1 :: acc) rest

/-- The units of a byte text. -/
def utf8Units (bytes : Bytes) : List Utf8Unit := unitsLoop [] bytes

/-- Where and why bytes are not text. -/
inductive Utf8Fault where
  | invalid (size index : Nat)
  | incomplete (index : Nat)
deriving DecidableEq

/-- The wording of a fault. -/
def Utf8Fault.message : Utf8Fault → String
  | invalid size index =>
    "invalid utf-8 sequence of " ++ toString size ++ " bytes from index " ++ toString index
  | incomplete index => "incomplete utf-8 byte sequence from index " ++ toString index

/-- The characters that units are, added in reverse to those in `acc`. -/
def charsOfUnits :
    (index : Nat) → (acc : List Char) → List Utf8Unit → Except Utf8Fault (List Char)
  | _, acc, [] => .ok acc.reverse
  | index, acc, .char c size :: rest => charsOfUnits (index + size) (c :: acc) rest
  | index, _, .invalid size :: _ => .error (.invalid size index)
  | index, _, .incomplete :: _ => .error (.incomplete index)

/-- The text that bytes are, or the first place where they are none. -/
def decodeUtf8 (bytes : Bytes) : Except Utf8Fault String :=
  (charsOfUnits 0 [] (utf8Units bytes)).map String.ofList

/-- The text that bytes are, with a replacement character for every bad unit. -/
def decodeLossy (bytes : Bytes) : String :=
  String.ofList ((utf8Units bytes).map fun
    | .char c _ => c
    | _ => Char.ofNat 0xFFFD)

/-- The bytes of a text. -/
def encodeUtf8 (s : String) : Bytes := s.toUTF8.toList

end NoteShell.Text
