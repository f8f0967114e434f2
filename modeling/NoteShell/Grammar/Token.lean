/-!
# Tokens

The words of the command language. Block structure is carried by three kinds of tokens without text:
the end of a logical line, the start of an indented block and its end. A token list always ends with
one end-of-text token.
-/

namespace NoteShell.Grammar

/-- Operators, brackets and separators. -/
inductive Symbol where
  | powerAssign | floorAssign | equal | notEqual | lessEqual | greaterEqual
  | plusAssign | minusAssign | starAssign | slashAssign | percentAssign
  | power | floor | arrow | plus | minus | star | slash | percent
  | less | greater | assign
  | openParen | closeParen | openBracket | closeBracket | openBrace | closeBrace
  | comma | colon | dot | semicolon
deriving DecidableEq, Repr

namespace Symbol

/-- All symbols; of two symbols that begin alike the longer one comes first. -/
def all : List Symbol :=
  [powerAssign, floorAssign, equal, notEqual, lessEqual, greaterEqual, plusAssign, minusAssign,
    starAssign, slashAssign, percentAssign, power, floor, arrow, plus, minus, star, slash, percent,
    less, greater, assign, openParen, closeParen, openBracket, closeBracket, openBrace, closeBrace,
    comma, colon, dot, semicolon]

/-- The characters of a symbol. -/
def chars : Symbol → List Char
  | powerAssign => ['*', '*', '=']
  | floorAssign => ['/', '/', '=']
  | equal => ['=', '=']
  | notEqual => ['!', '=']
  | lessEqual => ['<', '=']
  | greaterEqual => ['>', '=']
  | plusAssign => ['+', '=']
  | minusAssign => ['-', '=']
  | starAssign => ['*', '=']
  | slashAssign => ['/', '=']
  | percentAssign => ['%', '=']
  | power => ['*', '*']
  | floor => ['/', '/']
  | arrow => ['-', '>']
  | plus => ['+']
  | minus => ['-']
  | star => ['*']
  | slash => ['/']
  | percent => ['%']
  | less => ['<']
  | greater => ['>']
  | assign => ['=']
  | openParen => ['(']
  | closeParen => [')']
  | openBracket => ['[']
  | closeBracket => [']']
  | openBrace => ['{']
  | closeBrace => ['}']
  | comma => [',']
  | colon => [':']
  | dot => ['.']
  | semicolon => [';']

/-- The text of a symbol. -/
def text (s : Symbol) : String := String.ofList s.chars

/-- Whether a symbol opens a bracket of any kind. -/
def opens (s : Symbol) : Bool := s == openParen || s == openBracket || s == openBrace

/-- Whether a symbol closes a bracket of any kind. -/
def closes (s : Symbol) : Bool := s == closeParen || s == closeBracket || s == closeBrace

/-- The symbol at the start of a text, the longest where several fit. -/
def atStart? (cs : List Char) : Option Symbol :=
  all.find? fun s => s.chars.isPrefixOf cs

end Symbol

/-- What a token is. -/
inductive TokenKind where
  | int (value : Int64)
  | float (value : Float)
  | str (text : String)
  /-- The body of a formatted text, with escapes decoded and braces kept. -/
  | formatted (body : String)
  | name (text : String)
  | symbol (s : Symbol)
  | newline
  | indent
  | dedent
  | finish

/-- A token and the line on which it starts. -/
structure Token where
  kind : TokenKind
  line : Nat

instance : Inhabited Token := ⟨⟨.finish, 1⟩⟩

/-- Whether a token ends a logical line. -/
def TokenKind.isNewline : TokenKind → Bool
  | newline => true
  | _ => false

/-- The words that cannot be names. -/
def keywords : List String :=
  ["False", "None", "True", "and", "as", "assert", "async", "await", "break", "class", "continue",
    "def", "del", "elif", "else", "except", "finally", "for", "from", "global", "if", "import", "in",
    "is", "lambda", "nonlocal", "not", "or", "pass", "raise", "return", "try", "while", "with",
    "yield"]

/-- Whether a word is reserved. -/
def isKeyword (word : String) : Bool := keywords.contains word

end NoteShell.Grammar
