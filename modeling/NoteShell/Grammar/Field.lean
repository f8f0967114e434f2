import NoteShell.Grammar.Expression
import NoteShell.Grammar.Layout
import NoteShell.Text.Trim

/-!
# Formatted texts

The body of a formatted text is split into literal text and fields in braces; a doubled brace stands
for itself. A field holds the source of an expression, an optional conversion after an exclamation
mark and an optional format after a colon. Its source is read like a source text of its own. Since a
field is shorter than the text around it, formatted texts inside formatted texts come to an end.
-/

namespace NoteShell.Grammar

open NoteShell.Text

/-- The parts of a field as written. -/
structure FieldText where
  source : List Char
  /-- What stands between the exclamation mark and the end of the expression. -/
  conversion : Option (List Char)
  /-- What stands between the colon and the closing brace. -/
  spec : Option (List Char)

/-- The end of the expression in a field: a colon or a closing brace outside of quotes and brackets.
`quote` is the quote that is open, `depth` the number of open brackets; `source` and `conversion`
are in reverse. The result says whether a colon was met. -/
def scanField :
    (quote : Option Char) → (depth : Nat) → (source : List Char) →
      (conversion : Option (List Char)) → List Char →
      Option (List Char × Option (List Char) × Bool × List Char)
  | _, _, _, _, [] => none
  | quote, depth, source, conversion, c :: rest =>
    let keep (quote : Option Char) (depth : Nat) :=
      match conversion with
      | some text => scanField quote depth source (some (c :: text)) rest
      | none => scanField quote depth (c :: source) none rest
    let close (colon : Bool) := some (source.reverse, conversion.map List.reverse, colon, rest)
    match quote with
    | some q => keep (if c = q then none else some q) depth
    | none =>
      if c = '\'' ∨ c = '"' then keep (some c) depth
      else if c = '(' ∨ c = '[' ∨ c = '{' then keep none (depth + 1)
      else if c = ')' ∨ c = ']' then keep none (depth - 1)
      else if c = '}' ∧ 0 < depth then keep none (depth - 1)
      else if c = '!' ∧ depth = 0 ∧ conversion.isNone ∧ rest.head? ≠ some '=' then
        scanField none depth source (some []) rest
      else if c = ':' ∧ depth = 0 then close true
      else if c = '}' then close false
      else keep none depth

/-- The field after an opening brace and the characters after its closing brace. -/
def takeField (cs : List Char) : Except Fault (FieldText × List Char) :=
  match scanField none 0 [] none cs with
  | none => .error .openField
  | some (source, conversion, colon, rest) =>
    if (trimChars source).isEmpty then .error .emptyField
    else if conversion ≠ none ∧ conversion ≠ some ['r'] ∧ conversion ≠ some ['s'] then
      .error .badConversion
    else if colon then
      let spec := rest.takeWhile (· ≠ '}')
      match rest.dropWhile (· ≠ '}') with
      | _ :: rest => .ok (⟨source, conversion, some spec⟩, rest)
      | [] => .error .openField
    else .ok (⟨source, conversion, none⟩, rest)

/-- The pieces so far in reverse, with pending literal text added. -/
def addLiteral (pending : List Char) (pieces : List Piece) : List Piece :=
  if pending.isEmpty then pieces else .literal (String.ofList pending.reverse) :: pieces

/-- The pieces of a body. `readSource` reads the source of a field; `pending` is the literal text
that is not finished yet and `pieces` are the finished pieces, both in reverse. -/
def splitBody (readSource : String → Except SourceError Expr) (line : Nat) :
    (fuel : Nat) → (pending : List Char) → (pieces : List Piece) → List Char →
      Except SourceError (List Piece)
  | 0, pending, pieces, _ => .ok (addLiteral pending pieces).reverse
  | _ + 1, pending, pieces, [] => .ok (addLiteral pending pieces).reverse
  | fuel + 1, pending, pieces, '{' :: '{' :: rest =>
    splitBody readSource line fuel ('{' :: pending) pieces rest
  | fuel + 1, pending, pieces, '}' :: '}' :: rest =>
    splitBody readSource line fuel ('}' :: pending) pieces rest
  | _ + 1, _, _, '}' :: _ => .error ⟨.singleBrace, line⟩
  | fuel + 1, pending, pieces, '{' :: rest =>
    match takeField rest with
    | .error fault => .error ⟨fault, line⟩
    | .ok (field, rest) =>
      match readSource (String.ofList (trimChars field.source)) with
      | .error e => .error ⟨.inField e.fault, line⟩
      | .ok value =>
        let piece :=
          Piece.field value (field.conversion == some ['r']) (field.spec.map String.ofList)
        splitBody readSource line fuel [] (piece :: addLiteral pending pieces) rest
  | fuel + 1, pending, pieces, c :: rest =>
    splitBody readSource line fuel (c :: pending) pieces rest

/-- The formatted text with the given body. -/
def readFormatted (readSource : String → Except SourceError Expr) : FormattedReader :=
  fun body line =>
    let cs := body.toList
    (splitBody readSource line (cs.length + 1) [] [] cs).map Expr.formatted

/-- The expression that a source text is, where formatted texts may be nested `depth` levels. -/
def readSource : (depth : Nat) → String → Except SourceError Expr
  | 0, _ => .error ⟨.tooDeep, 1⟩
  | depth + 1, source => do
    let tokens ← tokenize source
    let r : Reading := ⟨readFormatted (readSource depth), tokens.length⟩
    (singleExpression r).run' tokens

/-- The expression that a source text is. -/
def parseExpression (source : String) : Except SourceError Expr :=
  readSource (source.length + 1) source

end NoteShell.Grammar
