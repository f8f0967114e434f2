import NoteShell.Grammar.Fault

/-!
# Reading a token list

A parser takes tokens from the front of a list that ends with the end-of-text token, and leaves the
rest. The end-of-text token is never taken. Errors are reported on the line of the next token.
-/

namespace NoteShell.Grammar

/-- A parser over the remaining tokens. -/
abbrev Parser := StateT (List Token) (Except SourceError)

namespace Parser

/-- What the next token is. -/
def headKind : List Token → TokenKind
  | t :: _ => t.kind
  | [] => .finish

/-- The line of the next token. -/
def headLine : List Token → Nat
  | t :: _ => t.line
  | [] => 1

/-- The kind of the next token. -/
def peek : Parser TokenKind := fun ts => .ok (headKind ts, ts)

/-- The kind of the token after the next. -/
def peekSecond : Parser TokenKind := fun ts => .ok (headKind (ts.drop 1), ts)

/-- The line of the next token. -/
def line : Parser Nat := fun ts => .ok (headLine ts, ts)

/-- Take the next token. -/
def advance : Parser Unit := fun ts => .ok ((), ts.drop 1)

/-- Fail on the line of the next token. -/
def fail {α : Type} (fault : Fault) : Parser α := fun ts => .error ⟨fault, headLine ts⟩

/-- The fault that an unexpected token is. -/
def unexpected : TokenKind → Fault
  | .finish => .unexpectedEnd
  | .indent => .unexpectedIndent
  | _ => .invalid

/-- Fail because of the next token. -/
def failUnexpected {α : Type} : Parser α := fun ts => fail (unexpected (headKind ts)) ts

/-- Whether a token is the given symbol. -/
def isSymbol (s : Symbol) : TokenKind → Bool
  | .symbol t => s == t
  | _ => false

/-- Whether a token is the given word. -/
def isWord (word : String) : TokenKind → Bool
  | .name n => n == word
  | _ => false

/-- Whether a token ends a line or the text. -/
def endsLine : TokenKind → Bool
  | .newline => true
  | .finish => true
  | _ => false

/-- Whether the next token is the given symbol. -/
def atSymbol (s : Symbol) : Parser Bool := fun ts => .ok (isSymbol s (headKind ts), ts)

/-- Take the next token if it is the given symbol. -/
def takeSymbol? (s : Symbol) : Parser Bool := fun ts =>
  if isSymbol s (headKind ts) then .ok (true, ts.drop 1) else .ok (false, ts)

/-- Take the given word if it comes next. -/
def takeWord? (word : String) : Parser Bool := fun ts =>
  if isWord word (headKind ts) then .ok (true, ts.drop 1) else .ok (false, ts)

/-- Take the given symbol, which must come next. A missing colon, or any symbol missing at the end
of a line, is named in the error. -/
def expectSymbol (s : Symbol) : Parser Unit := fun ts =>
  if isSymbol s (headKind ts) then .ok ((), ts.drop 1)
  else if s = .colon ∨ endsLine (headKind ts) then fail (.expected s) ts
  else failUnexpected ts

/-- Take the given word, which must come next. -/
def expectWord (word : String) : Parser Unit := fun ts =>
  if isWord word (headKind ts) then .ok ((), ts.drop 1) else failUnexpected ts

/-- Take a name that is not reserved. -/
def identifier : Parser String := fun ts =>
  match headKind ts with
  | .name n => if isKeyword n then failUnexpected ts else .ok (n, ts.drop 1)
  | _ => failUnexpected ts

/-- The tokens after any line ends at the front. -/
def dropNewlines : List Token → List Token
  | t :: rest => if t.kind.isNewline then dropNewlines rest else t :: rest
  | [] => []

/-- Take all line ends that come next. -/
def skipNewlines : Parser Unit := fun ts => .ok ((), dropNewlines ts)

/-- Check that the end of the text comes next. -/
def expectFinish : Parser Unit := fun ts =>
  match headKind ts with
  | .finish => .ok ((), ts)
  | _ => failUnexpected ts

end Parser

end NoteShell.Grammar
