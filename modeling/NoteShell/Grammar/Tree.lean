/-!
# Syntax trees

Expressions and statements of the command language. Parentheses leave no trace in the tree, and a
chain of comparisons is one node whose links must all hold.
-/

namespace NoteShell.Grammar

/-- Operators with one operand. -/
inductive UnaryOp where
  | negate
  | plus
  | not
deriving DecidableEq

/-- Arithmetic operators. -/
inductive BinaryOp where
  | add
  | sub
  | mul
  | div
  | floorDiv
  | mod
  | pow
deriving DecidableEq

/-- The links of a comparison chain. -/
inductive Comparison where
  | equal
  | notEqual
  | less
  | lessEqual
  | greater
  | greaterEqual
  | isIn
  | notIn
  | same
  | notSame
deriving DecidableEq

/-- The operators that may leave their right operand unevaluated. -/
inductive LogicOp where
  | and
  | or
deriving DecidableEq

mutual

/-- Expressions. -/
inductive Expr where
  | none
  | bool (value : Bool)
  | int (value : Int64)
  | float (value : Float)
  | str (text : String)
  | formatted (pieces : List Piece)
  | list (items : List Expr)
  | dict (entries : List (Expr × Expr))
  | name (name : String)
  | member (target : Expr) (name : String)
  | index (target index : Expr)
  | slice (target : Expr) (start stop : Option Expr)
  | call (callee : Expr) (args : List Expr) (keywords : List (String × Expr))
  | unary (op : UnaryOp) (operand : Expr)
  | binary (op : BinaryOp) (left right : Expr)
  | compare (first : Expr) (links : List (Comparison × Expr))
  | logic (op : LogicOp) (left right : Expr)
  | conditional (test body otherwise : Expr)

/-- A piece of a formatted text: literal text, or a field with a value to fill in. -/
inductive Piece where
  | literal (text : String)
  /-- With `quoted` the value is shown as in source code; `spec` is the text after a colon. -/
  | field (value : Expr) (quoted : Bool) (spec : Option String)

end

instance : Inhabited Expr := ⟨.none⟩

/-- What can be assigned to or deleted. -/
inductive Target where
  | name (name : String)
  | index (container index : Expr)

/-- A parameter of a function, with its default value if it has one. -/
structure Param where
  name : String
  default? : Option Expr

/-- Statements. -/
inductive Stmt where
  | expr (value : Expr)
  | assign (targets : List Target) (value : Expr)
  | update (op : BinaryOp) (target : Target) (value : Expr)
  | branch (branches : List (Expr × List Stmt)) (otherwise : List Stmt)
  | whileLoop (test : Expr) (body : List Stmt)
  | forLoop (names : List String) (iterable : Expr) (body : List Stmt)
  | breakLoop
  | continueLoop
  | pass
  | define (name : String) (params : List Param) (body : List Stmt)
  | returnValue (value : Option Expr)
  | raise (value : Expr)
  | delete (targets : List Target)
  | declareGlobal (names : List String)

end NoteShell.Grammar
