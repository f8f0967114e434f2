import NoteShell.Grammar.Token
import NoteShell.Decimal.Notation

/-!
# Errors in source text

Each way in which a source text can be wrong, its wording, and the line it is reported on.
-/

namespace NoteShell.Grammar

open NoteShell.Decimal

/-- The part of an expression that cannot be assigned to or deleted. -/
inductive NotTarget where
  | functionCall
  | literal
  | expression
deriving DecidableEq

/-- What a target was wanted for. -/
inductive TargetUse where
  | assign
  | delete
deriving DecidableEq

/-- The ways in which a source text can be wrong. -/
inductive Fault where
  | unterminatedText (triple : Bool) (detectedAt : Nat)
  | invalidInteger
  | invalidDecimal
  | integerTooLarge
  | invalidCharacter (c : Char)
  | unexpectedIndent
  | unmatchedUnindent
  | unexpectedEnd
  | invalid
  | expected (s : Symbol)
  | tooDeep
  | breakOutside
  | continueOutside
  | returnOutside
  | bareRaise
  | notTarget (use : TargetUse) (what : NotTarget)
  | expectedBlock (owner : String) (line : Nat)
  | duplicateParameter (name : String)
  | requiredAfterDefault
  | repeatedKeyword (name : String)
  | positionalAfterKeyword
  | tuple
  | singleBrace
  | openField
  | emptyField
  | badConversion
  | inField (fault : Fault)
deriving DecidableEq

private def codePointText (c : Char) : String :=
  let digits := String.ofList ((Nat.toDigits 16 c.toNat).map Char.toUpper)
  "U+" ++ padZeros 4 digits

private def notTargetText : NotTarget → String
  | .functionCall => "function call"
  | .literal => "literal"
  | .expression => "expression"

private def targetUseText : TargetUse → String
  | .assign => "assign"
  | .delete => "delete"

/-- The wording of a fault, without its line. -/
def Fault.message : Fault → String
  | unterminatedText false line =>
    "unterminated string literal (detected at line " ++ natText line ++ ")"
  | unterminatedText true line =>
    "unterminated triple-quoted string literal (detected at line " ++ natText line ++ ")"
  | invalidInteger => "invalid integer literal"
  | invalidDecimal => "invalid decimal literal"
  | integerTooLarge => "integer literal too large"
  | invalidCharacter c =>
    "invalid character '" ++ String.singleton c ++ "' (" ++ codePointText c ++ ")"
  | unexpectedIndent => "unexpected indent"
  | unmatchedUnindent => "unindent does not match any outer indentation level"
  | unexpectedEnd => "unexpected EOF while parsing"
  | invalid => "invalid syntax"
  | expected s => "expected '" ++ s.text ++ "'"
  | tooDeep => "too many nested parentheses"
  | breakOutside => "'break' outside loop"
  | continueOutside => "'continue' not properly in loop"
  | returnOutside => "'return' outside function"
  | bareRaise => "bare 'raise' is not supported"
  | notTarget use what => "cannot " ++ targetUseText use ++ " to " ++ notTargetText what
  | expectedBlock owner line =>
    "expected an indented block after '" ++ owner ++ "' statement on line " ++ natText line
  | duplicateParameter name => "duplicate argument '" ++ name ++ "' in function definition"
  | requiredAfterDefault => "non-default argument follows default argument"
  | repeatedKeyword name => "keyword argument repeated: " ++ name
  | positionalAfterKeyword => "positional argument follows keyword argument"
  | tuple => "tuples are not supported; use a list"
  | singleBrace => "f-string: single '\x7d' is not allowed"
  | openField => "f-string: expecting '\x7d'"
  | emptyField => "f-string: valid expression required before '\x7d'"
  | badConversion => "f-string: invalid conversion character: expected 's' or 'r'"
  | inField fault => "f-string: " ++ fault.message

/-- A fault and the line it is reported on. -/
structure SourceError where
  fault : Fault
  line : Nat
deriving DecidableEq

/-- The message shown for an error in the source. -/
def SourceError.message (e : SourceError) : String :=
  e.fault.message ++ " (line " ++ natText e.line ++ ")"

end NoteShell.Grammar
