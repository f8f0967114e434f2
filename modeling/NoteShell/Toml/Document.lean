import NoteShell.Toml.Scalar
import NoteShell.Toml.Text

/-!
# Reading TOML documents

A document is a sequence of lines: entries, headers of tables and of tables in arrays, comments and
empty lines. The entries after a header belong to its table. Arrays and tables in braces nest less
than 80 levels, and keys have less than 80 names.

## Main definitions

* `Toml.takeValue?`: the value at the start of a text.
* `Toml.parse?`: the table that a document holds.
-/

namespace NoteShell.Toml

/-- The number of levels that values, and of names that keys, must not reach. -/
def nestingLimit : Nat := 80

private def skipBlank (cs : List Char) : List Char := cs.dropWhile isBlankChar

/-- The rest of a text after blank space, line ends and comments. -/
private def skipLines : (inComment : Bool) → List Char → List Char
  | _, [] => []
  | inComment, c :: rest =>
    if c = '\n' then skipLines false rest
    else if c = '\r' then
      match rest with
      | '\n' :: _ => skipLines false rest
      | _ => c :: rest
    else if inComment then if isPlainChar c then skipLines true rest else c :: rest
    else if isBlankChar c then skipLines false rest
    else if c = '#' then skipLines true rest
    else c :: rest

/-- The rest of a text after the end of a line, which a comment may precede. -/
private def endLine? (cs : List Char) : Option (List Char) :=
  let cs := match skipBlank cs with
    | '#' :: rest => rest.dropWhile isPlainChar
    | cs => cs
  if cs.isEmpty then some [] else skipLineEnd? cs

private def isBareChar (c : Char) : Bool := c.isAlphanum || c = '-' || c = '_'

/-- One name of a key. -/
private def takeName? (cs : List Char) : Option (String × List Char) :=
  match cs.takeWhile isBareChar with
  | [] => takeShortText? cs
  | name => some (String.ofList name, cs.dropWhile isBareChar)

/-- The names of a key, with points between them. -/
private def takeNames? : (fuel : Nat) → List Char → Option (List String × List Char)
  | 0, _ => none
  | fuel + 1, cs => do
    let (name, rest) ← takeName? (skipBlank cs)
    match skipBlank rest with
    | '.' :: rest =>
      let (names, rest) ← takeNames? fuel rest
      some (name :: names, rest)
    | rest => some ([name], rest)

/-- A key, with blank space around it. -/
private def takeKey? (cs : List Char) : Option (Key × List Char) := do
  let (names, rest) ← takeNames? (nestingLimit - 1) cs
  some (⟨names.dropLast, names.getLast?.getD ""⟩, rest)

/-- A reader takes a value from the start of a text and leaves the rest. -/
private abbrev ValueReader := List Char → Option (Toml × List Char)

/-- An entry up to its value, and the rest. -/
private def takeEntry? (value : ValueReader) (cs : List Char) :
    Option ((Key × Toml) × List Char) := do
  let (key, rest) ← takeKey? cs
  match rest with
  | '=' :: rest =>
    let (v, rest) ← value (skipBlank rest)
    some ((key, v), rest)
  | _ => none

/-- The items of an array after its opening bracket or a comma. -/
private def takeItems? (value : ValueReader) : (fuel : Nat) → List Char →
    Option (List Toml × List Char)
  | 0, _ => none
  | fuel + 1, cs =>
    match skipLines false cs with
    | ']' :: rest => some ([], rest)
    | cs => do
      let (item, rest) ← value cs
      match skipLines false rest with
      | ',' :: rest =>
        let (items, rest) ← takeItems? value fuel rest
        some (item :: items, rest)
      | ']' :: rest => some ([item], rest)
      | _ => none

/-- The entries of a table in braces after its opening brace or a comma. -/
private def takeEntries? (value : ValueReader) : (fuel : Nat) → List Char →
    Option (List (Key × Toml) × List Char)
  | 0, _ => none
  | fuel + 1, cs => do
    let (entry, rest) ← takeEntry? value cs
    match skipBlank rest with
    | ',' :: rest =>
      let (entries, rest) ← takeEntries? value fuel rest
      some (entry :: entries, rest)
    | '}' :: rest => some ([entry], rest)
    | _ => none

/-- A table in braces, after its opening brace. -/
private def takeInline? (value : ValueReader) (cs : List Char) : Option (Toml × List Char) :=
  match skipBlank cs with
  | '}' :: rest => some (.table .inline [], rest)
  | _ => do
    let (entries, rest) ← takeEntries? value cs.length cs
    let entries ← Entries.addAll? entries []
    some (.table .inline entries, rest)

/-- The value at the start of a text, nested less than `limit` levels. -/
def takeValue? : (limit : Nat) → List Char → Option (Toml × List Char)
  | _, '"' :: rest => (takeText? ('"' :: rest)).map fun (s, rest) => (.text s, rest)
  | _, '\'' :: rest => (takeText? ('\'' :: rest)).map fun (s, rest) => (.text s, rest)
  | limit + 1, '[' :: rest =>
    (takeItems? (takeValue? limit) (rest.length + 1) rest).map fun (items, rest) =>
      (.array false items, rest)
  | limit + 1, '{' :: rest => takeInline? (takeValue? limit) rest
  | _, cs => takeScalar? cs

/-- What a line says. -/
private inductive Line where
  | entry (key : Key) (value : Toml)
  | table (key : Key)
  | tableItem (key : Key)

/-- A header after its brackets, which are closed by as many. -/
private def takeHeader? (closing : List Char) (cs : List Char) : Option (Key × List Char) := do
  let (key, rest) ← takeKey? cs
  if closing.isPrefixOf rest then
    some (key, ← endLine? (rest.drop closing.length))
  else none

/-- The lines of a document that say something. -/
private def takeLines? : (fuel : Nat) → (acc : List Line) → List Char → Option (List Line)
  | 0, _, _ => none
  | fuel + 1, acc, cs =>
    match skipBlank cs with
    | [] => some acc.reverse
    | '[' :: '[' :: rest =>
      match takeHeader? [']', ']'] rest with
      | some (key, rest) => takeLines? fuel (.tableItem key :: acc) rest
      | none => none
    | '[' :: rest =>
      match takeHeader? [']'] rest with
      | some (key, rest) => takeLines? fuel (.table key :: acc) rest
      | none => none
    | c :: rest =>
      if c = '#' ∨ c = '\n' ∨ c = '\r' then
        match endLine? (c :: rest) with
        | some rest => takeLines? fuel acc rest
        | none => none
      else
        match takeEntry? (takeValue? (nestingLimit - 1)) (c :: rest) with
        | some ((key, value), rest) =>
          match endLine? rest with
          | some rest => takeLines? fuel (.entry key value :: acc) rest
          | none => none
        | none => none

/-- The entries at the start of some lines, and the lines from the next header on. -/
private def splitEntries : List Line → List (Key × Toml) × List Line
  | .entry key value :: rest =>
    let (entries, rest) := splitEntries rest
    ((key, value) :: entries, rest)
  | lines => ([], lines)

/-- The table with what the headers among some lines add to it. -/
private def addLines? (root : Entries) : List Line → Option Entries
  | [] => some root
  | .entry .. :: rest => addLines? root rest
  | .table key :: rest => do
    let fill := Entries.addAll? (splitEntries rest).1
    addLines? (← Entries.within? (Entries.define? key.name fill) key.path root) rest
  | .tableItem key :: rest => do
    let fill := Entries.addAll? (splitEntries rest).1
    addLines? (← Entries.within? (Entries.append? key.name fill) key.path root) rest

/-- The table that the lines of a document make. -/
private def tableOfLines? (lines : List Line) : Option Entries := do
  let (entries, rest) := splitEntries lines
  addLines? (← Entries.addAll? entries []) rest

/-- The text without a byte order mark at its start. -/
private def dropMark : List Char → List Char
  | '\uFEFF' :: rest => rest
  | cs => cs

/-- The table that a document holds. -/
def parse? (text : String) : Option Entries := do
  let cs := dropMark text.toList
  tableOfLines? (← takeLines? (cs.length + 1) [] cs)

end NoteShell.Toml
