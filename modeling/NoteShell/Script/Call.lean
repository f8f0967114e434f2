import NoteShell.Script.Builtins
import NoteShell.Script.DictMethods
import NoteShell.Script.ListMethods
import NoteShell.Script.Names
import NoteShell.Script.Overview
import NoteShell.Script.StrMethods

/-!
# Calls

Functions of the program bind their arguments to parameters: arguments given by position first, then
those given by name, and defaults for the rest. Builtin functions may read the note and write to the
host, and skills receive their arguments as JSON values.

## Main definitions

* `bindArguments` : the local names of a call of a function.
* `callBuiltin`, `callSkill` : calls of builtin functions and skills.
* `methodOf` : the method of a value with a name.
-/

namespace NoteShell.Script

open NoteShell.Text

/-! ### Parameters -/

/-- A parameter in a call, with the argument given for it. -/
structure Slot where
  name : String
  given : Option Value
  default? : Option Value

/-- The parameters with the arguments given by position. -/
def positionalSlots : (params : List (String × Option Value)) → (args : List Value) → List Slot
  | [], _ => []
  | (name, default?) :: params, [] => ⟨name, none, default?⟩ :: positionalSlots params []
  | (name, default?) :: params, v :: args => ⟨name, some v, default?⟩ :: positionalSlots params args

/-- The parameters with an argument given by name. -/
def fillSlot (function name : String) (v : Value) : List Slot → Except EvalError (List Slot)
  | [] => .error (.type (.unexpectedKeyword function name))
  | slot :: rest =>
    if slot.name = name then
      if slot.given.isSome then .error (.type (.multipleValues function name))
      else .ok ({ slot with given := some v } :: rest)
    else (fillSlot function name v rest).map (slot :: ·)

/-- The parameters with arguments given by name, in the order in which they are written. -/
def fillSlots (function : String) : List (String × Value) → List Slot →
    Except EvalError (List Slot)
  | [], slots => .ok slots
  | (name, v) :: rest, slots => do
    let slots ← fillSlot function name v slots
    fillSlots function rest slots

/-- The value that a parameter has in the call. -/
def Slot.value? (slot : Slot) : Option Value := slot.given.or slot.default?

/-- The names of the parameters that have no value. -/
def missingNames (slots : List Slot) : List String :=
  (slots.filter fun slot => slot.value?.isNone).map (·.name)

/-- The values of the parameters that have one. -/
def boundNames (slots : List Slot) : Entries :=
  slots.filterMap fun slot => slot.value?.map (slot.name, ·)

/-- The local names of a call of a function. -/
def bindArguments (f : Function) (args : CallArgs) : Except EvalError Frame := do
  if f.params.length < args.positional.length then
    throw (.type (.tooManyPositional f.name f.params.length args.positional.length))
  let slots ← fillSlots f.name args.keyword (positionalSlots f.params args.positional)
  match missingNames slots with
  | [] => return ⟨boundNames slots, []⟩
  | missing => throw (.type (.missingArguments f.name missing))

/-! ### Builtin functions -/

/-- The text that stands between printed values. -/
private def printSeparator (args : CallArgs) : Except EvalError String :=
  match args.keyword? "sep" with
  | none => .ok " "
  | some .none => .ok " "
  | some (.str sep) => .ok sep
  | some v => .error (.type (.separatorType v.typeName))

/-- The text that is printed for some arguments. -/
def printedText (args : CallArgs) (h : Heap) : Except EvalError String := do
  args.onlyKeywords Builtin.print.name Builtin.print.keywords
  let sep ← printSeparator args
  return join sep (args.positional.map (strValue h))

/-- The key that is looked up in the front matter. -/
def frontmatterKey (args : CallArgs) : Except EvalError String :=
  match args.get? 0 "key" with
  | some (.str key) => .ok key
  | some v => .error (.type (.frontmatterKeyType v.typeName))
  | none => .error (.type .frontmatterKeyMissing)

/-- Look up a key in the front matter. -/
def frontmatterEntry (note : NoteContext) (args : CallArgs) : HeapOp := do
  let name := Builtin.getFrontmatter.name
  args.onlyKeywords name Builtin.getFrontmatter.keywords
  args.checkArity name 0 2
  let key ← frontmatterKey args
  match Json.find? key note.frontmatter with
  | some entry => HeapM.perform fun h => ofJson h entry
  | none => return (args.get? 1 "default").getD .none

/-- Check that a builtin function is called without arguments. -/
def checkNoArguments (b : Builtin) (args : CallArgs) : Except EvalError Unit := do
  args.onlyKeywords b.name b.keywords
  args.checkArity b.name 0 0

/-- Call a builtin function. -/
def callBuiltin (env : Env) (b : Builtin) (args : CallArgs) : Work Value := do
  match b with
  | .print =>
    let text ← Work.readHeap (printedText args)
    Work.log text
    return .none
  | .getFrontmatter => Work.onHeap (frontmatterEntry env.note args)
  | .info =>
    Work.ofResult (checkNoArguments b args)
    Work.onHost fun host => (.ok (), writeOverview env.registry host)
    return .none
  | .available => do
    Work.ofResult (checkNoArguments b args)
    Work.perform (.newList ((availableObjects env.registry).map Value.str).toArray)
  | b => Work.onHeap (callPureBuiltin env.sorter b args)

/-! ### Skills -/

/-- The JSON forms of values in order. -/
def jsonItems (h : Heap) : List Value → Except EvalError (List Json)
  | [] => .ok []
  | v :: rest => do
    let item ← toJson h v
    let items ← jsonItems h rest
    return item :: items

/-- The JSON forms of named values in order. -/
def jsonMembers (h : Heap) : List (String × Value) → Except EvalError (List (String × Json))
  | [] => .ok []
  | (name, v) :: rest => do
    let item ← toJson h v
    let members ← jsonMembers h rest
    return (name, item) :: members

/-- The arguments as a skill receives them. -/
def skillArgs (args : CallArgs) (h : Heap) : Except EvalError SkillArgs := do
  let positional ← jsonItems h args.positional
  let keyword ← jsonMembers h args.keyword
  return ⟨positional, Json.membersOf keyword⟩

/-- What comes of a skill that has left the host in some state. -/
def skillOutcome (result : Except SkillError Unit) (host : Host) : Except Failure Unit :=
  if host.crashed then .error .crash
  else
    match result with
    | .ok () => .ok ()
    | .error e => .error (.error (.skill e))

/-- Call a skill. -/
def callSkill (env : Env) (name : String) (args : CallArgs) : Work Value := do
  let args ← Work.readHeap (skillArgs args)
  Work.onHost fun host =>
    let (result, host) := env.registry.invoke name ⟨args, env.note⟩ host
    (skillOutcome result host, host)
  return .none

/-! ### Methods -/

/-- The method of a value with the given name. -/
def methodOf (v : Value) (name : String) : Except EvalError Value :=
  let found : Option Value :=
    match v with
    | .str s => (StrMethod.ofName? name).map (.strMethod s)
    | .list r => (ListMethod.ofName? name).map (.listMethod r)
    | .dict r => (DictMethod.ofName? name).map (.dictMethod r)
    | _ => none
  match found with
  | some m => .ok m
  | none => .error (.noAttribute v.typeName name)

end NoteShell.Script
