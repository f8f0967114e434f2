import NoteShell.Script.Effect

/-!
# Call arguments

The evaluated arguments of a call, and the checks that builtin functions and methods make on them.
-/

namespace NoteShell.Script

/-- The arguments of a call, by position and by name. -/
structure CallArgs where
  positional : List Value
  keyword : List (String × Value)

namespace CallArgs

/-- Check that no argument has a name other than the allowed ones. -/
def onlyKeywords (args : CallArgs) (function : String) (allowed : List String) :
    Except EvalError Unit :=
  match args.keyword.find? fun e => !allowed.contains e.1 with
  | some (name, _) => .error (.type (.unexpectedKeyword function name))
  | none => .ok ()

/-- The argument with a name. -/
def keyword? (args : CallArgs) (name : String) : Option Value :=
  (args.keyword.find? fun e => e.1 == name).map (·.2)

/-- The argument at a position. -/
def positional? (args : CallArgs) (position : Nat) : Option Value := args.positional[position]?

/-- The argument at a position, or with a name where there are fewer positions. -/
def get? (args : CallArgs) (position : Nat) (name : String) : Option Value :=
  (args.positional? position).or (args.keyword? name)

/-- Check the number of arguments given by position. -/
def checkArity (args : CallArgs) (function : String) (least most : Nat) : Except EvalError Unit :=
  let given := args.positional.length
  if least ≤ given ∧ given ≤ most then .ok ()
  else .error (.type (.wrongArity function (.between least most) given))

/-- Check that at least some number of arguments is given by position. -/
def checkLeast (args : CallArgs) (function : String) (least : Nat) : Except EvalError Unit :=
  let given := args.positional.length
  if least ≤ given then .ok ()
  else .error (.type (.wrongArity function (.atLeast least) given))

/-- The first argument of a call whose number of arguments is checked. -/
def first (args : CallArgs) : Value := (args.positional? 0).getD .none

/-- The second argument of a call whose number of arguments is checked. -/
def second (args : CallArgs) : Value := (args.positional? 1).getD .none

end CallArgs

/-- The integer that an argument is. -/
def intArgument (v : Value) : Except EvalError Int64 :=
  match v.asInt? with
  | some i => .ok i
  | none => .error (.type (.notInteger v.typeName))

/-- The text that an argument of a function is. -/
def textArgument (function : String) (v : Value) : Except EvalError String :=
  match v with
  | .str s => .ok s
  | v => .error (.type (.argumentNotText function v.typeName))

end NoteShell.Script
