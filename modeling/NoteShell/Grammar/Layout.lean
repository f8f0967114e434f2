import NoteShell.Grammar.Literal

/-!
# Lines, indentation and the token list

A source text is cut into tokens line by line. At the start of a line outside of brackets its
indentation is measured: a deeper line opens a block and a shallower one closes blocks. Blank lines
and comments do not count, and line ends inside brackets do not end the line.
-/

namespace NoteShell.Grammar

open NoteShell.Text

/-- The position in a source text together with the tokens found so far. -/
structure Scan where
  /-- The characters still to be read. -/
  rest : List Char
  line : Nat
  /-- The number of brackets that are open. -/
  depth : Nat
  atLineStart : Bool
  /-- The indentation of the enclosing blocks, innermost first; the lowest level is zero. -/
  indents : List Nat
  /-- The tokens found so far, last one first. -/
  found : List Token

namespace Scan

/-- The start of a source text. -/
def start (source : List Char) : Scan :=
  { rest := source, line := 1, depth := 0, atLineStart := true, indents := [0], found := [] }

/-- Add a token on the current line. -/
def push (s : Scan) (kind : TokenKind) : Scan :=
  { s with found := ⟨kind, s.line⟩ :: s.found }

/-- End the logical line, unless there is none. -/
def endLine (s : Scan) : Scan :=
  match s.found with
  | t :: _ => if t.kind.isNewline then s else s.push .newline
  | [] => s

/-- Add the tokens that close the last line and all blocks. -/
def finish (s : Scan) : List Token :=
  let s := s.endLine
  let closing := List.replicate (s.indents.length - 1) (Token.mk .dedent s.line)
  (Token.mk .finish s.line :: (closing ++ s.found)).reverse

/-- The column after a run of blanks, tabs going to the next multiple of eight, and what follows. -/
def measureIndent : (column : Nat) → List Char → Nat × List Char
  | column, ' ' :: rest => measureIndent (column + 1) rest
  | column, '\t' :: rest => measureIndent ((column / 8 + 1) * 8) rest
  | _, '\x0c' :: rest => measureIndent 0 rest
  | column, rest => (column, rest)

/-- Close the blocks that are indented deeper than a column. -/
def closeBlocks (column line : Nat) : List Nat → List Token → List Nat × List Token
  | [], found => ([], found)
  | level :: outer, found =>
    if column < level then closeBlocks column line outer (⟨.dedent, line⟩ :: found)
    else (level :: outer, found)

/-- Open or close blocks for a line whose first character stands in the given column. -/
def indentTo (s : Scan) (column : Nat) : Except SourceError Scan :=
  let current := s.indents.headD 0
  let s := { s with atLineStart := false }
  if current < column then
    if s.found.isEmpty then .error ⟨.unexpectedIndent, s.line⟩
    else .ok ({ s with indents := column :: s.indents }.push .indent)
  else if column < current then
    let (indents, found) := closeBlocks column s.line s.indents s.found
    if indents.head? = some column then .ok { s with indents := indents, found := found }
    else .error ⟨.unmatchedUnindent, s.line⟩
  else .ok s

/-- The characters that names begin with. -/
def isNameStart (c : Char) : Bool := isAlphabetic c || c == '_'

/-- The characters that names are made of. -/
def isNamePart (c : Char) : Bool := isAlphanumeric c || c == '_'

/-- A text whose opening quote is the next character. -/
def takeText (s : Scan) (raw isFormatted : Bool) (rest : List Char) :
    Except SourceError Scan :=
  match rest with
  | mark :: tail =>
    let triple := [mark, mark].isPrefixOf tail
    match scanText ⟨mark, triple, raw⟩ 0 s.line [] (if triple then tail.drop 2 else tail) with
    | .error fault => .error ⟨fault, s.line⟩
    | .ok (text, line, rest) =>
      let kind := if isFormatted then TokenKind.formatted text else TokenKind.str text
      .ok { s with rest := rest, line := line, found := ⟨kind, s.line⟩ :: s.found }
  | [] => .error ⟨.unterminatedText false s.line, s.line⟩

/-- The letters that may stand before a quote: whether the text is raw and whether it is
formatted. -/
def textMarks? (word : List Char) : Option (Bool × Bool) :=
  match word.map Char.toLower with
  | ['f'] => some (false, true)
  | ['r'] => some (true, false)
  | ['r', 'f'] => some (true, true)
  | ['f', 'r'] => some (true, true)
  | _ => none

/-- Whether a quote comes next. -/
def startsQuoted : List Char → Bool
  | c :: _ => c == '"' || c == '\''
  | [] => false

/-- A name, or a text with letters in front of its quote. -/
def takeName (s : Scan) : Except SourceError Scan :=
  let word := s.rest.takeWhile isNamePart
  let rest := s.rest.dropWhile isNamePart
  match startsQuoted rest, textMarks? word with
  | true, some (raw, isFormatted) => takeText s raw isFormatted rest
  | _, _ => .ok ({ s with rest := rest }.push (.name (String.ofList word)))

/-- A number. -/
def takeNumber (s : Scan) : Except SourceError Scan :=
  match scanNumber s.rest with
  | .error fault => .error ⟨fault, s.line⟩
  | .ok (kind, rest) => .ok ({ s with rest := rest }.push kind)

/-- A symbol that begins with the given character. -/
def takeSymbol (s : Scan) (c : Char) : Except SourceError Scan :=
  match Symbol.atStart? s.rest with
  | none => .error ⟨.invalidCharacter c, s.line⟩
  | some symbol =>
    let depth :=
      if symbol.opens then s.depth + 1 else if symbol.closes then s.depth - 1 else s.depth
    .ok ({ s with rest := s.rest.drop symbol.chars.length, depth := depth }.push (.symbol symbol))

/-- What follows a comment, from the end of its line on. -/
def dropComment (cs : List Char) : List Char := cs.dropWhile (· ≠ '\n')

/-- The next token, blank, comment or line end within a line. `none` at the end of the text. -/
def takeInLine (s : Scan) : Except SourceError (Option Scan) :=
  match s.rest with
  | [] => .ok none
  | c :: rest =>
    if c = ' ' ∨ c = '\t' ∨ c = '\x0c' ∨ c = '\r' then .ok (some { s with rest := rest })
    else if c = '#' then .ok (some { s with rest := dropComment rest })
    else if c = '\n' then
      let s := if s.depth = 0 then { s.endLine with atLineStart := true } else s
      .ok (some { s with rest := rest, line := s.line + 1 })
    else if c = '\\' ∧ ['\n'].isPrefixOf rest then
      .ok (some { s with rest := rest.drop 1, line := s.line + 1 })
    else if c = '\\' ∧ ['\r', '\n'].isPrefixOf rest then
      .ok (some { s with rest := rest.drop 2, line := s.line + 1 })
    else if c = '"' ∨ c = '\'' then (takeText s false false s.rest).map some
    else if c.isDigit then (takeNumber s).map some
    else if c = '.' ∧ (rest.headD ' ').isDigit then (takeNumber s).map some
    else if isNameStart c then (takeName s).map some
    else (takeSymbol s c).map some

/-- One step of the scan, which takes at least one character. `none` at the end of the text. -/
def step (s : Scan) : Except SourceError (Option Scan) :=
  if s.atLineStart && s.depth == 0 then
    let (column, rest) := measureIndent 0 s.rest
    let s := { s with rest := rest }
    match rest with
    | [] => .ok none
    | c :: tail =>
      if c = '#' then .ok (some { s with rest := dropComment tail })
      else if c = '\r' then .ok (some { s with rest := tail })
      else if c = '\n' then .ok (some { s with rest := tail, line := s.line + 1 })
      else
        match s.indentTo column with
        | .ok s => s.takeInLine
        | .error e => .error e
  else s.takeInLine

/-- The tokens from a position to the end of the text. A step takes a character, so a number of
steps above the number of characters is enough. -/
def run : (steps : Nat) → Scan → Except SourceError (List Token)
  | 0, s => .ok s.finish
  | steps + 1, s =>
    match s.step with
    | .error e => .error e
    | .ok none => .ok s.finish
    | .ok (some next) => run steps next

end Scan

/-- The tokens of a source text. -/
def tokenize (source : String) : Except SourceError (List Token) :=
  let cs := source.toList
  (Scan.start cs).run (cs.length + 1)

end NoteShell.Grammar
