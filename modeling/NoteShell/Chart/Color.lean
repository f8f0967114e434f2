import NoteShell.Text.Case
import NoteShell.Text.CharClass
import NoteShell.Text.Trim

/-!
# Colours

A colour is given by a name, or by a hash sign and the values of its channels: six hexadecimal
digits, two for each channel, or three that are doubled. The first of the two characters of a
channel may be a plus sign. The digits are counted and cut into channels by their bytes, and a cut
inside of a character is a crash.
-/

namespace NoteShell

open NoteShell.Text

/-- A colour by the intensities of its channels. -/
structure Color where
  red : UInt8
  green : UInt8
  blue : UInt8
deriving DecidableEq, Inhabited

namespace Color

/-- The colours that have a name, with their names. -/
def named : List (String × Color) :=
  [("blue", ⟨31, 119, 180⟩), ("b", ⟨31, 119, 180⟩), ("red", ⟨214, 39, 40⟩), ("r", ⟨214, 39, 40⟩),
    ("green", ⟨44, 160, 44⟩), ("g", ⟨44, 160, 44⟩), ("orange", ⟨255, 127, 14⟩),
    ("purple", ⟨148, 103, 189⟩), ("black", ⟨0, 0, 0⟩), ("k", ⟨0, 0, 0⟩),
    ("gray", ⟨127, 127, 127⟩), ("grey", ⟨127, 127, 127⟩), ("cyan", ⟨23, 190, 207⟩),
    ("c", ⟨23, 190, 207⟩), ("magenta", ⟨227, 119, 194⟩), ("m", ⟨227, 119, 194⟩),
    ("yellow", ⟨188, 189, 34⟩), ("y", ⟨188, 189, 34⟩)]

/-- The value of the two characters of a channel. -/
def channel? (high low : Char) : Option UInt8 :=
  match digitOf? 16 low with
  | none => none
  | some low =>
    if high = '+' then some low.toUInt8
    else (digitOf? 16 high).map fun high => (16 * high + low).toUInt8

/-- The characters that the first bytes of a text are, and those after them. The bytes may end
inside of a character. -/
def splitBytes : (size : Nat) → List Char → Option (List Char × List Char)
  | 0, cs => some ([], cs)
  | _ + 1, [] => none
  | size, c :: cs =>
    if c.utf8Size ≤ size then
      (splitBytes (size - c.utf8Size) cs).map fun (first, rest) => (c :: first, rest)
    else none

/-- The value of the next channel, if it has one, and the characters after it. There is no result
where the two bytes of the channel end inside of a character. -/
def nextChannel (cs : List Char) : Option (Option UInt8 × List Char) :=
  (splitBytes 2 cs).map fun
    | ([high, low], rest) => (channel? high low, rest)
    | (_, rest) => (none, rest)

/-- The colour that three channels are, if they all have a value. The first one without a value
decides. -/
def readChannels (cs : List Char) : Option (Option Color) := do
  let (some red, cs) ← nextChannel cs | return none
  let (some green, cs) ← nextChannel cs | return none
  let (some blue, _) ← nextChannel cs | return none
  return some ⟨red, green, blue⟩

/-- The number of bytes of some characters. -/
def byteCount : List Char → Nat
  | [] => 0
  | c :: cs => c.utf8Size + byteCount cs

/-- The colour that the characters after a hash sign stand for. -/
def readHex (cs : List Char) : Option (Option Color) :=
  match byteCount cs with
  | 3 => readChannels (cs.flatMap fun c => [c, c])
  | 6 => readChannels cs
  | _ => some none

/-- The colour that a text stands for, if it stands for one. There is no result where a channel ends
inside of a character. -/
def read (spec : String) : Option (Option Color) :=
  let spec := lower (trim spec)
  match spec.toList with
  | '#' :: channels => readHex channels
  | _ => some ((named.find? fun e => e.1 == spec).map (·.2))

/-- The colour that a text stands for. -/
def parse? (spec : String) : Option Color := (read spec).join

end Color

end NoteShell
