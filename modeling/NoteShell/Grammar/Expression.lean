import NoteShell.Grammar.Tree
import NoteShell.Grammar.Reader

/-!
# Parsing expressions

From the loosest binding to the tightest: conditional, `or`, `and`, `not`, comparison, sum, product,
sign, power, and what follows an atom. Every way in which an expression can hold a deeper one goes
through a nesting level, of which 200 are allowed. Formatted texts are handed to a function that is
given from outside, so that the grammar itself needs no second reading of the source.

## Main definitions

* `Level` : what a parser may use at the next nesting level.
* `Level.ofBudget` : the parsers for a number of nesting levels that are still allowed.
* `expression` : the parser of a whole expression.
-/

namespace NoteShell.Grammar

open NoteShell.Grammar.Parser

/-- The deepest nesting of expressions that is accepted. -/
def maxNesting : Nat := 200

/-- Reads the body of a formatted text that starts on the given line. -/
abbrev FormattedReader := String → Nat → Except SourceError Expr

/-- What a parser is given from outside. -/
structure Reading where
  /-- Reads formatted texts. -/
  formatted : FormattedReader
  /-- A number that no repetition exceeds, such as the number of tokens. -/
  bound : Nat

/-- The parsers of the next nesting level. Each of them enters the level first and fails where no
level is left. -/
structure Level where
  /-- A whole expression. -/
  expression : Parser Expr
  /-- An operand of `not`. -/
  negation : Parser Expr
  /-- An operand of a sign, or an exponent. -/
  signed : Parser Expr
  /-- The inside of a bracket, given the parser of whole expressions on that level. -/
  bracket : (Parser Expr → Parser Expr) → Parser Expr

/-- No further level is allowed. -/
def Level.exhausted : Level where
  expression := fail .tooDeep
  negation := fail .tooDeep
  signed := fail .tooDeep
  bracket _ := fail .tooDeep

/-! ### Repetition -/

/-- Operands joined by operators of one level, grouped to the left. -/
def leftChain (operand : Parser Expr) (join? : TokenKind → Option (Expr → Expr → Expr)) :
    (fuel : Nat) → Expr → Parser Expr
  | 0, left => pure left
  | fuel + 1, left => do
    match join? (← peek) with
    | none => return left
    | some join =>
      advance
      let right ← operand
      leftChain operand join? fuel (join left right)

/-- An operand followed by any number of operators of one level and their operands. -/
def chain (r : Reading) (operand : Parser Expr)
    (join? : TokenKind → Option (Expr → Expr → Expr)) : Parser Expr := do
  let first ← operand
  leftChain operand join? r.bound first

/-- Items up to a closing symbol, separated by commas, of which the last may be followed by one. -/
def itemsUntil {α : Type} (close : Symbol) (item : Parser α) :
    (fuel : Nat) → (acc : List α) → Parser (List α)
  | 0, acc => pure acc.reverse
  | fuel + 1, acc => do
    if ← atSymbol close then
      return acc.reverse
    let x ← item
    if ← takeSymbol? .comma then
      itemsUntil close item fuel (x :: acc)
    else
      return (x :: acc).reverse

/-! ### Atoms -/

/-- The texts that directly follow a text. -/
def adjacentTexts : List Token → String × List Token
  | t :: rest =>
    match t.kind with
    | .str s =>
      let (more, rest) := adjacentTexts rest
      (s ++ more, rest)
    | _ => ("", t :: rest)
  | [] => ("", [])

/-- The value that a word stands for, or the word as a name. -/
def wordExpr? (word : String) : Option Expr :=
  if word = "True" ∨ word = "true" then some (.bool true)
  else if word = "False" ∨ word = "false" then some (.bool false)
  else if word = "None" ∨ word = "null" then some .none
  else if isKeyword word then none
  else some (.name word)

/-- The inside of parentheses. -/
def parenthesized (expression : Parser Expr) : Parser Expr := do
  let inner ← expression
  if ← atSymbol .comma then
    fail .tuple
  expectSymbol .closeParen
  return inner

/-- The inside of a list. -/
def listItems (r : Reading) (expression : Parser Expr) : Parser Expr := do
  let items ← itemsUntil .closeBracket expression r.bound []
  expectSymbol .closeBracket
  return .list items

/-- A key and its value. -/
def dictEntry (expression : Parser Expr) : Parser (Expr × Expr) := do
  let key ← expression
  expectSymbol .colon
  let value ← expression
  return (key, value)

/-- The inside of a dict. -/
def dictEntries (r : Reading) (expression : Parser Expr) : Parser Expr := do
  let entries ← itemsUntil .closeBrace (dictEntry expression) r.bound []
  expectSymbol .closeBrace
  return .dict entries

/-- A literal, a name or a bracket. -/
def atom (r : Reading) (next : Level) : Parser Expr := fun ts =>
  match headKind ts with
  | .int i => .ok (.int i, ts.drop 1)
  | .float x => .ok (.float x, ts.drop 1)
  | .str s =>
    let (more, rest) := adjacentTexts (ts.drop 1)
    .ok (.str (s ++ more), rest)
  | .formatted body =>
    match r.formatted body (headLine ts) with
    | .ok e => .ok (e, ts.drop 1)
    | .error e => .error e
  | .name word =>
    match wordExpr? word with
    | some e => .ok (e, ts.drop 1)
    | none => failUnexpected ts
  | .symbol .openParen => next.bracket parenthesized (ts.drop 1)
  | .symbol .openBracket => next.bracket (listItems r) (ts.drop 1)
  | .symbol .openBrace => next.bracket (dictEntries r) (ts.drop 1)
  | _ => failUnexpected ts

/-! ### What follows an atom -/

/-- The arguments of a call, those with a name last. `args` and `keywords` are the arguments so far
in reverse. -/
def callArguments (expression : Parser Expr) :
    (fuel : Nat) → (args : List Expr) → (keywords : List (String × Expr)) →
      Parser (List Expr × List (String × Expr))
  | 0, args, keywords => pure (args.reverse, keywords.reverse)
  | fuel + 1, args, keywords => do
    if ← atSymbol .closeParen then
      return (args.reverse, keywords.reverse)
    let (args, keywords) ← argument args keywords
    if ← takeSymbol? .comma then
      callArguments expression fuel args keywords
    else
      return (args.reverse, keywords.reverse)
where
  /-- One argument, put in front of its kind. -/
  argument (args : List Expr) (keywords : List (String × Expr)) :
      Parser (List Expr × List (String × Expr)) := do
    match ← peek, isSymbol .assign (← peekSecond) with
    | .name n, true =>
      if isKeyword n then
        positional args keywords
      else
        advance
        advance
        if keywords.any (fun k => k.1 == n) then
          fail (.repeatedKeyword n)
        let value ← expression
        return (args, (n, value) :: keywords)
    | _, _ => positional args keywords
  /-- An argument without a name. -/
  positional (args : List Expr) (keywords : List (String × Expr)) :
      Parser (List Expr × List (String × Expr)) := do
    if !keywords.isEmpty then
      fail .positionalAfterKeyword
    let value ← expression
    return (value :: args, keywords)

/-- What stands between the brackets after a value: an index, or the bounds of a slice. -/
def subscript (expression : Parser Expr) (target : Expr) : Parser Expr := do
  let start ← if ← atSymbol .colon then pure Option.none else some <$> expression
  if ← takeSymbol? .colon then
    let stop ← if ← atSymbol .closeBracket then pure Option.none else some <$> expression
    expectSymbol .closeBracket
    return .slice target start stop
  else
    expectSymbol .closeBracket
    match start with
    | some index => return .index target index
    | Option.none => failUnexpected

/-- Calls, subscripts and attributes that follow a value. -/
def trailers (r : Reading) (next : Level) : (fuel : Nat) → Expr → Parser Expr
  | 0, target => pure target
  | fuel + 1, target => do
    match ← peek with
    | .symbol .openParen =>
      advance
      let (args, keywords) ← callArguments next.expression r.bound [] []
      expectSymbol .closeParen
      trailers r next fuel (.call target args keywords)
    | .symbol .openBracket =>
      advance
      let e ← subscript next.expression target
      trailers r next fuel e
    | .symbol .dot =>
      advance
      let n ← identifier
      trailers r next fuel (.member target n)
    | _ => return target

/-- An atom with all that follows it. -/
def postfixed (r : Reading) (next : Level) : Parser Expr := do
  let e ← atom r next
  trailers r next r.bound e

/-! ### Operators -/

/-- A value with an optional exponent, which may be signed. -/
def power (r : Reading) (next : Level) : Parser Expr := do
  let base ← postfixed r next
  if ← takeSymbol? .power then
    let exponent ← next.signed
    return .binary .pow base exponent
  else
    return base

/-- The sign that a token is. -/
def signOf? : TokenKind → Option UnaryOp
  | .symbol .minus => some .negate
  | .symbol .plus => some .plus
  | _ => none

/-- A power with any number of signs in front. -/
def signed (r : Reading) (next : Level) : Parser Expr := do
  match signOf? (← peek) with
  | some op =>
    advance
    let operand ← next.signed
    return .unary op operand
  | none => power r next

/-- The operators of products. -/
def productOf? : TokenKind → Option (Expr → Expr → Expr)
  | .symbol .star => some (.binary .mul)
  | .symbol .slash => some (.binary .div)
  | .symbol .floor => some (.binary .floorDiv)
  | .symbol .percent => some (.binary .mod)
  | _ => none

/-- The operators of sums. -/
def sumOf? : TokenKind → Option (Expr → Expr → Expr)
  | .symbol .plus => some (.binary .add)
  | .symbol .minus => some (.binary .sub)
  | _ => none

/-- A product of signed values. -/
def product (r : Reading) (next : Level) : Parser Expr :=
  chain r (signed r next) productOf?

/-- A sum of products. -/
def sum (r : Reading) (next : Level) : Parser Expr :=
  chain r (product r next) sumOf?

/-- The comparison that the next one or two tokens are, and how many they are. -/
def comparisonOf? (first second : TokenKind) : Option (Comparison × Nat) :=
  match first with
  | .symbol .equal => some (.equal, 1)
  | .symbol .notEqual => some (.notEqual, 1)
  | .symbol .less => some (.less, 1)
  | .symbol .lessEqual => some (.lessEqual, 1)
  | .symbol .greater => some (.greater, 1)
  | .symbol .greaterEqual => some (.greaterEqual, 1)
  | .name n =>
    if n = "in" then some (.isIn, 1)
    else if n = "not" ∧ isWord "in" second then some (.notIn, 2)
    else if n = "is" then some (if isWord "not" second then (.notSame, 2) else (.same, 1))
    else none
  | _ => none

/-- Take a comparison operator if one comes next. -/
def takeComparison? : Parser (Option Comparison) := fun ts =>
  match comparisonOf? (headKind ts) (headKind (ts.drop 1)) with
  | some (op, count) => .ok (some op, ts.drop count)
  | none => .ok (none, ts)

/-- The links of a comparison chain. -/
def comparisonLinks (operand : Parser Expr) :
    (fuel : Nat) → (acc : List (Comparison × Expr)) → Parser (List (Comparison × Expr))
  | 0, acc => pure acc.reverse
  | fuel + 1, acc => do
    match ← takeComparison? with
    | none => return acc.reverse
    | some op =>
      let right ← operand
      comparisonLinks operand fuel ((op, right) :: acc)

/-- A sum, or a chain of comparisons of sums. -/
def comparison (r : Reading) (next : Level) : Parser Expr := do
  let first ← sum r next
  let links ← comparisonLinks (sum r next) r.bound []
  return if links.isEmpty then first else .compare first links

/-- A comparison with any number of `not` in front. -/
def negation (r : Reading) (next : Level) : Parser Expr := do
  if ← takeWord? "not" then
    let operand ← next.negation
    return .unary .not operand
  else
    comparison r next

/-- The word `and`. -/
def conjunctionOf? : TokenKind → Option (Expr → Expr → Expr)
  | .name n => if n = "and" then some (.logic .and) else none
  | _ => none

/-- The word `or`. -/
def disjunctionOf? : TokenKind → Option (Expr → Expr → Expr)
  | .name n => if n = "or" then some (.logic .or) else none
  | _ => none

/-- Negations joined by `and`. -/
def conjunction (r : Reading) (next : Level) : Parser Expr :=
  chain r (negation r next) conjunctionOf?

/-- Conjunctions joined by `or`. -/
def disjunction (r : Reading) (next : Level) : Parser Expr :=
  chain r (conjunction r next) disjunctionOf?

/-- A disjunction, or a choice between two expressions. -/
def conditional (r : Reading) (next : Level) : Parser Expr := do
  let body ← disjunction r next
  if ← takeWord? "if" then
    let test ← disjunction r next
    expectWord "else"
    let otherwise ← next.expression
    return .conditional test body otherwise
  else
    return body

/-- The parsers for a number of nesting levels that may still be entered. -/
def Level.ofBudget (r : Reading) : (budget : Nat) → Level
  | 0 => exhausted
  | budget + 1 =>
    { expression := fun ts => conditional r (ofBudget r budget) ts
      negation := fun ts => Grammar.negation r (ofBudget r budget) ts
      signed := fun ts => Grammar.signed r (ofBudget r budget) ts
      bracket := fun body ts => body (ofBudget r budget).expression ts }

/-- A whole expression outside of any bracket. -/
def expression (r : Reading) : Parser Expr :=
  (Level.ofBudget r maxNesting).expression

/-- Exactly one expression, with line ends allowed around it. -/
def singleExpression (r : Reading) : Parser Expr := do
  skipNewlines
  let e ← expression r
  skipNewlines
  expectFinish
  return e

end NoteShell.Grammar
