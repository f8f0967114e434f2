/-!
# Searching, splitting and replacing

Occurrences of one text in another, taken from left to right without overlap. Splitting, counting
and replacing each go through the characters once, and pass over the rest of an occurrence where one
begins.
-/

namespace NoteShell.Text

/-- The scan behind `splitChars`. `cuts` occurrences may still be cut at, `skip` characters of the
current occurrence are still to be passed, `piece` is the current piece in reverse and `pieces` are
the finished pieces, last one first. -/
def splitLoop (sep : List Char) :
    (cuts skip : Nat) → (piece : List Char) → (pieces : List (List Char)) → List Char →
      List (List Char)
  | _, _, piece, pieces, [] => (piece.reverse :: pieces).reverse
  | cuts, skip + 1, piece, pieces, _ :: rest => splitLoop sep cuts skip piece pieces rest
  | 0, 0, piece, pieces, c :: rest => splitLoop sep 0 0 (c :: piece) pieces rest
  | cuts + 1, 0, piece, pieces, c :: rest =>
    if sep.isPrefixOf (c :: rest) then
      splitLoop sep cuts (sep.length - 1) [] (piece.reverse :: pieces) rest
    else splitLoop sep (cuts + 1) 0 (c :: piece) pieces rest

/-- The pieces of a text between the first `cuts` occurrences of a non-empty separator. -/
def splitChars (sep : List Char) (cuts : Nat) (cs : List Char) : List (List Char) :=
  splitLoop sep cuts 0 [] [] cs

/-- The pieces of a text between all occurrences of a non-empty separator. -/
def splitAll (sep : String) (s : String) : List String :=
  (splitChars sep.toList s.utf8ByteSize s.toList).map String.ofList

/-- The pieces of a text between the first `cuts` occurrences of a non-empty separator. -/
def splitAtMost (sep : String) (cuts : Nat) (s : String) : List String :=
  (splitChars sep.toList (min cuts s.utf8ByteSize) s.toList).map String.ofList

/-- The number of characters before the first occurrence, which may be empty. -/
def findLoop (needle : List Char) : (passed : Nat) → List Char → Option Nat
  | passed, [] => if needle.isEmpty then some passed else none
  | passed, c :: rest =>
    if needle.isPrefixOf (c :: rest) then some passed else findLoop needle (passed + 1) rest

/-- The number of characters before the first occurrence of a text. -/
def find? (needle s : String) : Option Nat :=
  findLoop needle.toList 0 s.toList

/-- Whether a text occurs in another. -/
def occursIn (needle s : String) : Bool :=
  (find? needle s).isSome

/-- The number of occurrences of a text that is not empty, after `found` others. `skip` characters
of the current occurrence are still to be passed. -/
def countLoop (needle : List Char) : (skip found : Nat) → List Char → Nat
  | _, found, [] => found
  | skip + 1, found, _ :: rest => countLoop needle skip found rest
  | 0, found, c :: rest =>
    if needle.isPrefixOf (c :: rest) then countLoop needle (needle.length - 1) (found + 1) rest
    else countLoop needle 0 found rest

/-- The number of non-overlapping occurrences of a text. The empty text occurs around every
character. -/
def countOccurrences (needle s : String) : Nat :=
  if needle.isEmpty then s.length + 1 else countLoop needle.toList 0 0 s.toList

/-- Texts joined with a separator between neighbours. -/
def join (sep : String) (pieces : List String) : String :=
  sep.intercalate pieces

/-- A text with every occurrence of a text that is not empty replaced, after the characters in
`acc`, which are in reverse. `skip` characters of the current occurrence are still to be passed. -/
def replaceLoop (old new : List Char) : (skip : Nat) → (acc : List Char) → List Char → List Char
  | _, acc, [] => acc.reverse
  | skip + 1, acc, _ :: rest => replaceLoop old new skip acc rest
  | 0, acc, c :: rest =>
    if old.isPrefixOf (c :: rest) then
      replaceLoop old new (old.length - 1) (new.reverseAux acc) rest
    else replaceLoop old new 0 (c :: acc) rest

/-- A text with every occurrence replaced. The empty text is replaced around every character. -/
def replace (old new s : String) : String :=
  if old.isEmpty then
    String.join (new :: s.toList.map (fun c => String.singleton c ++ new))
  else String.ofList (replaceLoop old.toList new.toList 0 [] s.toList)

/-- Whether a text begins with another. -/
def startsWith (head s : String) : Bool :=
  head.toList.isPrefixOf s.toList

/-- Whether a text ends with another. -/
def endsWith (tail s : String) : Bool :=
  tail.toList.reverse.isPrefixOf s.toList.reverse

end NoteShell.Text
