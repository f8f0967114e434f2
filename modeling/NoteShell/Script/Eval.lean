import NoteShell.Grammar.Tree
import NoteShell.Script.Call
import NoteShell.Script.Format
import NoteShell.Script.Loop
import NoteShell.Script.Operator

/-!
# Evaluation

The meaning of expressions and statements, step by step. Operands are evaluated from left to right.
The steps of a syntax tree are found by going down the tree; when they are run, the chain of calls
of functions of the program is at most 200 long.

## Main definitions

* `evalExpr` : the value of an expression.
* `execStmt`, `execBlock` : the execution of statements.
* `callFunction` : the call of a function of the program.
* `evaluate`, `runProgram` : an expression or a program in a given state.
-/

namespace NoteShell.Script

open NoteShell.Grammar

/-- Call a value. -/
def callValue (env : Env) (callee : Value) (args : CallArgs) : Evaluation Value :=
  match callee with
  | .function r => .call r args .done
  | .builtin b => callBuiltin env b args
  | .skill name => callSkill env name args
  | .strMethod s m => Work.onHeap (callStrMethod s m args)
  | .listMethod r m => Work.onHeap (callListMethod env.sorter r m args)
  | .dictMethod r m => Work.onHeap (callDictMethod r m args)
  | v => Work.fail (.type (.notCallable v.typeName))

/-- The text of a field in a formatted text. -/
def fieldText (v : Value) (quoted : Bool) (spec : Option String) (h : Heap) :
    Except EvalError String :=
  let v := if quoted then .str (reprValue h v) else v
  match spec with
  | some spec => formatValue h v spec
  | none => .ok (strValue h v)

/-- Whether a value counts as true in the present state. -/
def holds (v : Value) : Evaluation Bool := Work.readHeap fun h => .ok (truthy h v)

/-! ### Expressions -/

mutual

/-- The value of an expression. -/
def evalExpr (env : Env) : Expr → Evaluation Value
  | .none => pure .none
  | .bool b => pure (.bool b)
  | .int i => pure (.int i)
  | .float x => pure (.float x)
  | .str s => pure (.str s)
  | .formatted pieces => do
    let text ← evalPieces env "" pieces
    return .str text
  | .list items => do
    let values ← evalItems env [] items
    Work.perform (.newList values.toArray)
  | .dict entries => do
    let entries ← evalEntries env [] entries
    Work.perform (.newDict entries)
  | .name name => .lookup name .done
  | .member target name => do
    let receiver ← evalExpr env target
    Work.ofResult (methodOf receiver name)
  | .index target index => do
    let container ← evalExpr env target
    let i ← evalExpr env index
    Work.readHeap fun h => getItem h (reprValue h) container i
  | .slice target start stop => do
    let container ← evalExpr env target
    let first ← evalOption env start
    let last ← evalOption env stop
    Work.onHeap (sliceOf container first last)
  | .call callee args keywords => do
    let f ← evalExpr env callee
    let positional ← evalItems env [] args
    let keyword ← evalNamed env [] keywords
    callValue env f ⟨positional, keyword⟩
  | .unary op operand => do
    let v ← evalExpr env operand
    Work.readHeap (unary op v)
  | .binary op left right => do
    let a ← evalExpr env left
    let b ← evalExpr env right
    Work.onHeap (binary op a b)
  | .compare first links => do
    let v ← evalExpr env first
    evalLinks env v links
  | .logic op left right => do
    let v ← evalExpr env left
    match op, ← holds v with
    | .and, true => evalExpr env right
    | .or, false => evalExpr env right
    | _, _ => return v
  | .conditional test body otherwise => do
    let v ← evalExpr env test
    if ← holds v then
      evalExpr env body
    else
      evalExpr env otherwise

/-- The values of expressions in order, after those in `acc`, which is in reverse. -/
def evalItems (env : Env) (acc : List Value) : List Expr → Evaluation (List Value)
  | [] => pure acc.reverse
  | e :: rest => do
    let v ← evalExpr env e
    evalItems env (v :: acc) rest

/-- The value of an expression that may be missing. -/
def evalOption (env : Env) : Option Expr → Evaluation (Option Value)
  | none => pure none
  | some e => do
    let v ← evalExpr env e
    return some v

/-- The values of named expressions in order, after those in `acc`, which is in reverse. -/
def evalNamed (env : Env) (acc : List (String × Value)) :
    List (String × Expr) → Evaluation (List (String × Value))
  | [] => pure acc.reverse
  | (name, e) :: rest => do
    let v ← evalExpr env e
    evalNamed env ((name, v) :: acc) rest

/-- The entries of a dict display, set one after the other in `acc`. -/
def evalEntries (env : Env) (acc : Entries) : List (Expr × Expr) → Evaluation Entries
  | [] => pure acc
  | (k, e) :: rest => do
    let key ← evalExpr env k
    let key ← Work.ofResult (dictKey key)
    let v ← evalExpr env e
    evalEntries env (Entries.set key v acc) rest

/-- Whether all links of a comparison chain hold, from the value before them on. -/
def evalLinks (env : Env) (current : Value) :
    List (Comparison × Expr) → Evaluation Value
  | [] => pure (.bool true)
  | (op, e) :: rest => do
    let next ← evalExpr env e
    if ← Work.onHeap (HeapM.reading (compares op current next)) then
      evalLinks env next rest
    else
      return .bool false

/-- The text of pieces after the text `acc`. -/
def evalPieces (env : Env) (acc : String) : List Piece → Evaluation String
  | [] => pure acc
  | .literal text :: rest => evalPieces env (acc ++ text) rest
  | .field e quoted spec :: rest => do
    let v ← evalExpr env e
    let text ← Work.readHeap (fieldText v quoted spec)
    evalPieces env (acc ++ text) rest

end

/-! ### Assignments -/

/-- Assign a value to a target. -/
def assign (env : Env) (v : Value) : Target → Execution Unit
  | .name name => .store name v
  | .index container index => do
    let container ← evalExpr env container
    let i ← evalExpr env index
    Work.onHeap (setItem container i v)

/-- Assign a value to several targets in order. -/
def assignAll (env : Env) (v : Value) : List Target → Execution Unit
  | [] => pure ()
  | target :: rest => do
    assign env v target
    assignAll env v rest

/-- Update a target by an operation with the value of an expression. -/
def update (env : Env) (op : BinaryOp) (target : Target) (e : Expr) : Execution Unit := do
  match target with
  | .name name =>
    let current ← Evaluation.lookup name .done
    let v ← evalExpr env e
    let updated ← Work.onHeap (updateInPlace op current v)
    Execution.store name updated
  | .index container index =>
    let container ← evalExpr env container
    let i ← evalExpr env index
    let current ← Work.readHeap fun h => getItem h (reprValue h) container i
    let v ← evalExpr env e
    let updated ← Work.onHeap (updateInPlace op current v)
    Work.onHeap (setItem container i updated)

/-- Delete a target. -/
def delete (env : Env) : Target → Execution Unit
  | .name name => .unbind name
  | .index container index => do
    let container ← evalExpr env container
    let i ← evalExpr env index
    Work.onHeap (deleteItem container i)

/-- Delete several targets in order. -/
def deleteAll (env : Env) : List Target → Execution Unit
  | [] => pure ()
  | target :: rest => do
    delete env target
    deleteAll env rest

/-- The parts of a value that is bound to several loop names. -/
def unpack (count : Nat) (v : Value) (h : Heap) : Except EvalError (List Value) := do
  let parts ←
    match v with
    | .list _ | .str _ => itemsOf h v
    | v => throw (.type (.notUnpackable v.typeName))
  if parts.size < count then
    throw (.value (.tooFewToUnpack count parts.size))
  if count < parts.size then
    throw (.value (.tooManyToUnpack count))
  return parts.toList

/-- Bind names to values in order. -/
def storeAll : List (String × Value) → Execution Unit
  | [] => pure ()
  | (name, v) :: rest => do
    Execution.store name v
    storeAll rest

/-- Bind the names of a loop to an item: a single name to the item itself, several to its parts. -/
def bindLoopNames (names : List String) (item : Value) : Execution Unit := do
  match names with
  | [name] => .store name item
  | names =>
    let parts ← Work.readHeap (unpack names.length item)
    storeAll (names.zip parts)

/-- The parameters of a function with their defaults evaluated in order. -/
def evalParams (env : Env) : List Param → Execution (List (String × Option Value))
  | [] => pure []
  | param :: rest => do
    let default? ← evalOption env param.default?
    let params ← evalParams env rest
    return (param.name, default?) :: params

/-! ### Statements -/

mutual

/-- Execute a statement. -/
def execStmt (env : Env) : Stmt → Execution Flow
  | .expr e => do
    let _ ← evalExpr env e
    return .normal
  | .assign targets e => do
    let v ← evalExpr env e
    assignAll env v targets
    return .normal
  | .update op target e => do
    update env op target e
    return .normal
  | .branch branches otherwise => execBranches env (execBlock env otherwise) branches
  | .whileLoop test body =>
    whileRounds (do holds (← evalExpr env test)) (execBlock env body) env.rounds
  | .forLoop names iterable body => do
    let v ← evalExpr env iterable
    let items ← Work.readHeap (LoopItems.ofValue v)
    forRounds (bindLoopNames names) (execBlock env body) items
  | .breakLoop => pure .breakLoop
  | .continueLoop => pure .continueLoop
  | .pass => pure .normal
  | .define name params body => do
    let params ← evalParams env params
    let f ← Work.perform fun h => h.newFunction ⟨name, params, body⟩
    Execution.store name f
    return .normal
  | .returnValue e => do
    let v ← evalOption env e
    return .returned (v.getD .none)
  | .raise e => do
    let v ← evalExpr env e
    let text ← Work.readHeap fun h => .ok (strValue h v)
    Work.fail (.raised text)
  | .delete targets => do
    deleteAll env targets
    return .normal
  | .declareGlobal names => do
    Execution.declareGlobal names
    return .normal

/-- Execute statements in order, up to the first one that does not end normally. -/
def execBlock (env : Env) : List Stmt → Execution Flow
  | [] => pure .normal
  | stmt :: rest => do
    match ← execStmt env stmt with
    | .normal => execBlock env rest
    | flow => return flow

/-- Execute the block of the first branch whose test holds, else `otherwise`. -/
def execBranches (env : Env) (otherwise : Execution Flow) :
    List (Expr × List Stmt) → Execution Flow
  | [] => otherwise
  | (test, body) :: rest => do
    let v ← evalExpr env test
    if ← holds v then
      execBlock env body
    else
      execBranches env otherwise rest

end

/-! ### Functions -/

/-- The longest chain of calls. -/
def maxCallDepth : Nat := 200

/-- The value that a function gives when its body has ended. -/
def Flow.result : Flow → Value
  | .returned v => v
  | _ => .none

/-- Call a function of the program, where the chain of calls may still grow by `depth`. -/
def callFunction (env : Env) : (depth : Nat) → Caller
  | 0, _, _ => Run.fail .recursion
  | depth + 1, r, args => do
    let f ← Run.onWorld (Work.readHeap fun h => .ok (h.function r))
    let frame ← Run.onWorld (Work.ofResult (bindArguments f args))
    let flow ← Run.inFrame frame ((execBlock env f.body).run env (callFunction env depth))
    return flow.result

/-- Call a function of the program in the present state. -/
def callHere (env : Env) (s : State) : Caller := callFunction env (maxCallDepth - s.frames.length)

/-- The value of an expression in a state. -/
def evaluate (env : Env) (e : Expr) : Run Value := do
  (evalExpr env e).run env (callHere env (← get))

/-- Execute a program in a state. -/
def runProgram (env : Env) (stmts : List Stmt) : Run Unit := do
  discard ((execBlock env stmts).run env (callHere env (← get)))

end NoteShell.Script
