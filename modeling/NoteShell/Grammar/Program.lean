import NoteShell.Grammar.Field

/-!
# Parsing programs

Statements, one or more to a line, and blocks of statements. Where a statement stands decides
whether loops can be left or functions returned from: `break` and `continue` need a loop of the same
function around them, and `return` a function.

## Main definitions

* `Scope` : what the place of a statement allows.
* `statement` : the parser of a statement, for a number of blocks that may still be nested.
* `parseProgram` : the statements of a source text.
-/

namespace NoteShell.Grammar

open NoteShell.Grammar.Parser

/-- The constructs around a statement. -/
structure Scope where
  inLoop : Bool
  inFunction : Bool

/-- The outermost level of a program. -/
def Scope.top : Scope := ⟨false, false⟩

/-- What an expression is, as a target. -/
def Expr.asTarget (e : Expr) : Except NotTarget Target :=
  match e with
  | .name n => .ok (.name n)
  | .index container i => .ok (.index container i)
  | .call .. => .error .functionCall
  | .int _ | .float _ | .str _ | .bool _ | .none => .error .literal
  | _ => .error .expression

/-- An expression as a target, where it can be one. -/
def toTarget (use : TargetUse) (e : Expr) : Parser Target :=
  match e.asTarget with
  | .ok target => pure target
  | .error what => fail (.notTarget use what)

/-- Expressions as targets, in order. -/
def toTargets (use : TargetUse) : List Expr → Parser (List Target)
  | [] => pure []
  | e :: rest => do
    let target ← toTarget use e
    let targets ← toTargets use rest
    return target :: targets

/-! ### Simple statements -/

/-- One or more items separated by commas. -/
def commaSeparated {α : Type} (item : Parser α) : (fuel : Nat) → (acc : List α) → Parser (List α)
  | 0, acc => pure acc.reverse
  | fuel + 1, acc => do
    let x ← item
    if ← takeSymbol? .comma then
      commaSeparated item fuel (x :: acc)
    else
      return (x :: acc).reverse

/-- Whether a token ends a simple statement. -/
def endsStatement : TokenKind → Bool
  | .newline | .finish | .dedent | .symbol .semicolon => true
  | _ => false

/-- The operation of an assignment that updates its target. -/
def updateOf? : TokenKind → Option BinaryOp
  | .symbol .plusAssign => some .add
  | .symbol .minusAssign => some .sub
  | .symbol .starAssign => some .mul
  | .symbol .slashAssign => some .div
  | .symbol .floorAssign => some .floorDiv
  | .symbol .percentAssign => some .mod
  | .symbol .powerAssign => some .pow
  | _ => none

/-- Expressions that follow equal signs, last one first. -/
def assigned (e : Parser Expr) : (fuel : Nat) → (acc : List Expr) → Parser (List Expr)
  | 0, acc => pure acc
  | fuel + 1, acc => do
    if ← takeSymbol? .assign then
      let x ← e
      assigned e fuel (x :: acc)
    else
      return acc

/-- An expression, or an assignment. -/
def expressionStatement (r : Reading) : Parser Stmt := do
  let first ← expression r
  match updateOf? (← peek) with
  | some op =>
    advance
    let target ← toTarget .assign first
    let value ← expression r
    return .update op target value
  | none =>
    match ← assigned (expression r) r.bound [] with
    | [] => return .expr first
    | value :: others =>
      let targets ← toTargets .assign (first :: others.reverse)
      return .assign targets value

/-- A target to delete. -/
def deleteTarget (r : Reading) : Parser Target := do
  let e ← expression r
  toTarget .delete e

/-- A statement that fits on a line with others. -/
def simpleStatement (r : Reading) (scope : Scope) : Parser Stmt := do
  match ← peek with
  | .name "pass" =>
    advance
    return .pass
  | .name "break" =>
    if !scope.inLoop then
      fail .breakOutside
    advance
    return .breakLoop
  | .name "continue" =>
    if !scope.inLoop then
      fail .continueOutside
    advance
    return .continueLoop
  | .name "return" =>
    if !scope.inFunction then
      fail .returnOutside
    advance
    if endsStatement (← peek) then
      return .returnValue none
    else
      let value ← expression r
      return .returnValue (some value)
  | .name "raise" =>
    advance
    if endsStatement (← peek) then
      fail .bareRaise
    let value ← expression r
    return .raise value
  | .name "del" =>
    advance
    let targets ← commaSeparated (deleteTarget r) r.bound []
    return .delete targets
  | .name "global" =>
    advance
    let names ← commaSeparated identifier r.bound []
    return .declareGlobal names
  | _ => expressionStatement r

/-- Statements after the first on a line, each after a semicolon. -/
def moreStatements (item : Parser Stmt) : (fuel : Nat) → (acc : List Stmt) → Parser (List Stmt)
  | 0, acc => pure acc.reverse
  | fuel + 1, acc => do
    if ← takeSymbol? .semicolon then
      if endsLine (← peek) then
        return acc.reverse
      let s ← item
      moreStatements item fuel (s :: acc)
    else
      return acc.reverse

/-- The simple statements of a line, with the line end. -/
def simpleLine (r : Reading) (scope : Scope) : Parser (List Stmt) := do
  let first ← simpleStatement r scope
  let stmts ← moreStatements (simpleStatement r scope) r.bound [first]
  match ← peek with
  | .newline =>
    advance
    return stmts
  | .finish | .dedent => return stmts
  | _ => failUnexpected

/-! ### Blocks -/

/-- The statements of an indented block up to its end. -/
def blockBody (item : Parser (List Stmt)) : (fuel : Nat) → (acc : List Stmt) → Parser (List Stmt)
  | 0, acc => pure acc.reverse
  | fuel + 1, acc => do
    skipNewlines
    match ← peek with
    | .dedent =>
      advance
      return acc.reverse
    | .finish => return acc.reverse
    | _ =>
      let stmts ← item
      blockBody item fuel (stmts.reverseAux acc)

/-- The body of a statement after its colon: an indented block whose statements `item` parses, or
simple statements on the same line. -/
def block (r : Reading) (scope : Scope) (item : Parser (List Stmt)) (owner : String)
    (ownerLine : Nat) : Parser (List Stmt) := do
  expectSymbol .colon
  match ← peek with
  | .newline =>
    skipNewlines
    match ← peek with
    | .indent =>
      advance
      blockBody item r.bound []
    | _ => fail (.expectedBlock owner ownerLine)
  | _ => simpleLine r scope

/-- What parses a block in a given scope. -/
abbrev BlockParser := Scope → (owner : String) → (ownerLine : Nat) → Parser (List Stmt)

/-- The alternatives of a branch after its first one, and what is done otherwise. -/
def branchRest (r : Reading) (scope : Scope) (body : BlockParser) :
    (fuel : Nat) → (acc : List (Expr × List Stmt)) → Parser Stmt
  | 0, acc => pure (.branch acc.reverse [])
  | fuel + 1, acc => do
    let ownerLine ← line
    if ← takeWord? "elif" then
      let test ← expression r
      let stmts ← body scope "elif" ownerLine
      branchRest r scope body fuel ((test, stmts) :: acc)
    else if ← takeWord? "else" then
      let otherwise ← body scope "else" ownerLine
      return .branch acc.reverse otherwise
    else
      return .branch acc.reverse []

/-- A choice between blocks. -/
def branchStatement (r : Reading) (scope : Scope) (body : BlockParser) : Parser Stmt := do
  let ownerLine ← line
  expectWord "if"
  let test ← expression r
  let stmts ← body scope "if" ownerLine
  branchRest r scope body r.bound [(test, stmts)]

/-- A loop with a test. -/
def whileStatement (r : Reading) (scope : Scope) (body : BlockParser) : Parser Stmt := do
  let ownerLine ← line
  expectWord "while"
  let test ← expression r
  let stmts ← body { scope with inLoop := true } "while" ownerLine
  return .whileLoop test stmts

/-- A loop over the items of a value. -/
def forStatement (r : Reading) (scope : Scope) (body : BlockParser) : Parser Stmt := do
  let ownerLine ← line
  expectWord "for"
  let names ← commaSeparated identifier r.bound []
  expectWord "in"
  let iterable ← expression r
  let stmts ← body { scope with inLoop := true } "for" ownerLine
  return .forLoop names iterable stmts

/-- Parameters up to the closing parenthesis. Names must differ, and parameters without a default
come first. -/
def parameters (r : Reading) : (fuel : Nat) → (acc : List Param) → Parser (List Param)
  | 0, acc => pure acc.reverse
  | fuel + 1, acc => do
    if ← atSymbol .closeParen then
      return acc.reverse
    let n ← identifier
    if acc.any (fun p => p.name == n) then
      fail (.duplicateParameter n)
    let default? ← defaultValue acc
    if ← takeSymbol? .comma then
      parameters r fuel (⟨n, default?⟩ :: acc)
    else
      return (⟨n, default?⟩ :: acc).reverse
where
  /-- The default value of a parameter after those in `acc`. -/
  defaultValue (acc : List Param) : Parser (Option Expr) := do
    if ← takeSymbol? .assign then
      let e ← expression r
      return some e
    else if acc.any (fun p => p.default?.isSome) then
      fail .requiredAfterDefault
    else
      return none

/-- A function definition. A result annotation is read and dropped. -/
def defineStatement (r : Reading) (body : BlockParser) : Parser Stmt := do
  let ownerLine ← line
  expectWord "def"
  let n ← identifier
  expectSymbol .openParen
  let params ← parameters r r.bound []
  expectSymbol .closeParen
  if ← takeSymbol? .arrow then
    let _ ← expression r
  let stmts ← body ⟨false, true⟩ "def" ownerLine
  return .define n params stmts

/-- The statements of a line, or a statement with its blocks, in which `depth` further blocks may be
nested. -/
def statement (r : Reading) : (depth : Nat) → Scope → Parser (List Stmt)
  | 0, _ => failUnexpected
  | depth + 1, scope => do
    let body : BlockParser := fun inner owner ownerLine =>
      block r inner (statement r depth inner) owner ownerLine
    match ← peek with
    | .indent => fail .unexpectedIndent
    | .dedent => fail .unmatchedUnindent
    | .name "if" => return [← branchStatement r scope body]
    | .name "while" => return [← whileStatement r scope body]
    | .name "for" => return [← forStatement r scope body]
    | .name "def" => return [← defineStatement r body]
    | _ => simpleLine r scope

/-- Statements up to the end of the text. -/
def statements (item : Parser (List Stmt)) : (fuel : Nat) → (acc : List Stmt) → Parser (List Stmt)
  | 0, acc => pure acc.reverse
  | fuel + 1, acc => do
    match ← peek with
    | .finish => return acc.reverse
    | _ =>
      let stmts ← item
      skipNewlines
      statements item fuel (stmts.reverseAux acc)

/-- The statements of a token list. -/
def program (r : Reading) : Parser (List Stmt) := do
  skipNewlines
  statements (statement r r.bound .top) r.bound []

/-- The statements of a source text. -/
def parseProgram (source : String) : Except SourceError (List Stmt) := do
  let tokens ← tokenize source
  let r : Reading := ⟨readFormatted (readSource source.length), tokens.length⟩
  (program r).run' tokens

end NoteShell.Grammar
