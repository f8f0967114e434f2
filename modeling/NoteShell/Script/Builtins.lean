import NoteShell.Script.Arithmetic
import NoteShell.Script.CallArgs
import NoteShell.Script.Numeral
import NoteShell.Script.Repr
import NoteShell.Script.Sequence
import NoteShell.Script.Sort

/-!
# Builtin functions

The builtin functions whose results depend on nothing but their arguments: conversions between
types, and computations on numbers and sequences. The others need the note or the host and belong to
the evaluation of calls.
-/

namespace NoteShell.Script

open NoteShell.Grammar

/-- A value converted to an integer. -/
def toInt (v : Value) : Except EvalError Value :=
  match v with
  | .float x => intOfFloat x
  | .str s => .int <$> intOfText s 10
  | v =>
    match v.asInt? with
    | some i => .ok (.int i)
    | none => .error (.type (.notConvertible Builtin.int.name v.typeName))

/-- A value converted to a float. -/
def toFloat (v : Value) : Except EvalError Value :=
  match v with
  | .str s => .float <$> floatOfText s
  | v =>
    match v.asFloat? with
    | some x => .ok (.float x)
    | none => .error (.type (.notConvertible Builtin.float.name v.typeName))

/-- The integer that the arguments of a conversion ask for. With a base given, only a text has
one. -/
def intConversion (args : CallArgs) : Except EvalError Value :=
  match args.positional? 0, args.positional? 1 with
  | none, _ => .ok (.int 0)
  | some v, none => toInt v
  | some v, some base => do
    let text ← textArgument Builtin.int.name v
    let base ← intArgument base
    .int <$> intOfText text base.toInt

/-- The integers that arguments are. -/
def intArguments : List Value → Except EvalError (List Int64)
  | [] => .ok []
  | v :: rest => do
    let i ← intArgument v
    let others ← intArguments rest
    return i :: others

/-- The range with the given bounds. -/
def rangeOf (start stop step : Int64) : Except EvalError Value :=
  if step = 0 then .error (.value .zeroStep) else .ok (.range ⟨start, stop, step⟩)

/-- The range that one to three arguments ask for. -/
def rangeArguments (args : List Value) : Except EvalError Value := do
  match ← intArguments args with
  | [stop] => rangeOf 0 stop 1
  | [start, stop] => rangeOf start stop 1
  | [start, stop, step] => rangeOf start stop step
  | _ => rangeOf 0 0 1

/-- The best of some values, of which the first one wins among equals. `wanted` is the order of a
better value to the best one so far, and `op` the comparison named in an error. -/
def bestOf (h : Heap) (wanted : Ordering) (op : Comparison) :
    (best : Value) → List Value → Except Failure Value
  | best, [] => .ok best
  | best, v :: rest => do
    match ← orCrash (compareValues h v best) with
    | some o => bestOf h wanted op (if o = wanted then v else best) rest
    | none => throw (.error (.type (.notOrdered op v.typeName best.typeName)))

/-- The best of several arguments, or of the items of a single one. -/
def extreme (name : String) (wanted : Ordering) (op : Comparison) (args : CallArgs)
    (h : Heap) : Except Failure Value := do
  args.checkLeast name 1
  let candidates ←
    match args.positional with
    | [v] => Array.toList <$> itemsOf h v
    | vs => pure vs
  match candidates with
  | [] => .error (.error (.value (.emptyArgument name)))
  | v :: rest => bestOf h wanted op v rest

/-- The items of lists after those in `total`. -/
def addLists (h : Heap) : (total : Array Value) → List Value → Except EvalError (Array Value)
  | total, [] => .ok total
  | total, .list r :: rest => do
    checkLength (total.size + (h.items r).size)
    addLists h (total ++ h.items r) rest
  | _, v :: _ => .error (.type (.cannotConcatenate .list v.typeName))

/-- The sum of numbers and `total`. -/
def addNumbers : (total : Value) → List Value → Except EvalError Value
  | total, [] => .ok total
  | total, v :: rest =>
    match numberBinary? .add total v with
    | some result => do
      let total ← result
      addNumbers total rest
    | none => .error (.type (.unsupportedOperands .add total.typeName v.typeName))

/-- The sum of the items of a value, added to `start`. -/
def sumOf (start items : Value) : HeapOp := do
  let h ← get
  if let .str _ := start then
    HeapM.fail (.type .sumOfTexts)
  let items ← itemsOf h items
  match start, items.toList with
  | _, [] => return start
  | .list r, vs =>
    let total ← addLists h (h.items r) vs
    HeapM.perform (.newList total)
  | _, vs => addNumbers start vs

/-- The entries of the dict that an argument is. -/
def dictArgument (name : String) (h : Heap) (v : Value) : Except EvalError Entries :=
  match v with
  | .dict r => .ok (h.entries r)
  | v => .error (.type (.argumentNotDict name v.typeName))

/-- The number of places to round to, if one is given. -/
def placesArgument (args : CallArgs) : Except EvalError (Option Int64) :=
  match args.get? 1 "ndigits" with
  | none | some .none => .ok none
  | some v => some <$> intArgument v

/-- The arguments that a builtin function takes by name. -/
def Builtin.keywords : Builtin → List String
  | .sorted => ["reverse"]
  | .sum => ["start"]
  | .round => ["ndigits"]
  | .print => ["sep"]
  | .getFrontmatter => ["key", "default"]
  | _ => []

/-- Call a builtin function that depends on nothing but its arguments. -/
def callPureBuiltin (sorter : Sorter) (b : Builtin) (args : CallArgs) : HeapOp := do
  args.onlyKeywords b.name b.keywords
  let h ← get
  match b with
  | .len =>
    args.checkArity b.name 1 1
    let n ← lengthOf h args.first
    return .int (Int64.ofNat n)
  | .str =>
    args.checkArity b.name 0 1
    return .str (((args.positional? 0).map (strValue h)).getD "")
  | .repr =>
    args.checkArity b.name 1 1
    return .str (reprValue h args.first)
  | .int =>
    args.checkArity b.name 0 2
    intConversion args
  | .float =>
    args.checkArity b.name 0 1
    match args.positional? 0 with
    | none => return .float 0
    | some v => toFloat v
  | .bool =>
    args.checkArity b.name 0 1
    return .bool (((args.positional? 0).map (truthy h)).getD false)
  | .list =>
    args.checkArity b.name 0 1
    match args.positional? 0 with
    | none => HeapM.perform (.newList #[])
    | some v =>
      let items ← itemsOf h v
      HeapM.perform (.newList items)
  | .range =>
    args.checkArity b.name 1 3
    rangeArguments args.positional
  | .abs =>
    args.checkArity b.name 1 1
    magnitude args.first
  | .min => extreme b.name .lt .less args h
  | .max => extreme b.name .gt .greater args h
  | .sum =>
    args.checkArity b.name 1 2
    sumOf ((args.get? 1 "start").getD (.int 0)) args.first
  | .round =>
    args.checkArity b.name 1 2
    let places ← placesArgument args
    roundNumber args.first places
  | .sorted =>
    args.checkArity b.name 1 1
    let reverse := ((args.keyword? "reverse").map (truthy h)).getD false
    let items ← itemsOf h args.first
    let sorted ← sortValues sorter h reverse items
    HeapM.perform (.newList sorted)
  | .type =>
    args.checkArity b.name 1 1
    return .type args.first.typeName
  | .keys =>
    args.checkArity b.name 1 1
    let entries ← dictArgument b.name h args.first
    HeapM.perform (.newList (entries.map fun e => Value.str e.1).toArray)
  | .values =>
    args.checkArity b.name 1 1
    let entries ← dictArgument b.name h args.first
    HeapM.perform (.newList (entries.map fun e => e.2).toArray)
  | .print | .getFrontmatter | .info | .available => return .none

end NoteShell.Script
