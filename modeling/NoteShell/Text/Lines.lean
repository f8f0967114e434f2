/-!
# Lines of a text

A line ends with a line feed, which a carriage return may precede. What follows the last line end is
a line of its own unless it is empty.
-/

namespace NoteShell.Text

/-- A finished line, in reverse, without the carriage return before its line feed. -/
private def closeLine (line : List Char) : String :=
  match line with
  | '\r' :: rest => String.ofList rest.reverse
  | _ => String.ofList line.reverse

/-- The lines of a text; `line` is the current line and `done` are the finished lines, both in
reverse. -/
private def linesLoop (line : List Char) (done : List String) : List Char → List String
  | [] => (if line.isEmpty then done else String.ofList line.reverse :: done).reverse
  | '\n' :: rest => linesLoop [] (closeLine line :: done) rest
  | c :: rest => linesLoop (c :: line) done rest

/-- The lines of a text, without their ends. -/
def lines (s : String) : List String := linesLoop [] [] s.toList

end NoteShell.Text
