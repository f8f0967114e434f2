import NoteShell.Text.CharClass

/-!
# Trimming

Removal of the characters of a class from either end of a text, and the common case of blank space.
-/

namespace NoteShell.Text

/-- The list without the elements at its end that satisfy `p`. -/
def dropEndWhile {α : Type} (p : α → Bool) (xs : List α) : List α :=
  (xs.reverse.dropWhile p).reverse

/-- A text without the characters at its start that satisfy `p`. -/
def trimStartWhile (p : Char → Bool) (s : String) : String :=
  String.ofList (s.toList.dropWhile p)

/-- A text without the characters at its end that satisfy `p`. -/
def trimEndWhile (p : Char → Bool) (s : String) : String :=
  String.ofList (dropEndWhile p s.toList)

/-- A text without the characters at either end that satisfy `p`. -/
def trimWhile (p : Char → Bool) (s : String) : String :=
  String.ofList (dropEndWhile p (s.toList.dropWhile p))

/-- A text without blank space at either end. -/
def trim (s : String) : String :=
  trimWhile isBlank s

/-- A list of characters without blank space at either end. -/
def trimChars (cs : List Char) : List Char :=
  dropEndWhile isBlank (cs.dropWhile isBlank)

end NoteShell.Text
