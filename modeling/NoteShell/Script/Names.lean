import NoteShell.Script.JsonForm
import NoteShell.Script.State

/-!
# Names

A name means what the innermost call has bound it to, else what it is bound to globally, else a part
of the shared context, a builtin function or a skill. An assignment binds the name in the innermost
call, unless it was declared global there. The names of the shared context cannot be assigned to.
-/

namespace NoteShell.Script

/-- The innermost call, where a name belongs to it. -/
def State.frameOf? (s : State) (name : String) : Option Frame :=
  match s.frames with
  | frame :: _ => if frame.declared.contains name then none else some frame
  | [] => none

/-- The value that the program has bound a name to. -/
def State.bound? (s : State) (name : String) : Option Value :=
  match s.frameOf? name with
  | some frame => (Entries.get? name frame.locals).or (Entries.get? name s.globals)
  | none => Entries.get? name s.globals

/-- Make the value of a name of the shared context. -/
def contextValue (note : NoteContext) : ContextName → Effect
  | .frontmatter => fun h => dictOfMembers h note.frontmatter
  | .context => fun h => dictOfMembers h note.context
  | .notePath => .give (.str note.notePath)

/-- The value of a name that the program has not bound. -/
def ambientValue (env : Env) (name : String) : Work Value :=
  match ContextName.ofName? name with
  | some c => Work.perform (contextValue env.note c)
  | none =>
    match Builtin.ofName? name with
    | some b => pure (.builtin b)
    | none =>
      if env.registry.contains name then pure (.skill name) else Work.fail (.unbound name)

/-- The value of a name. -/
def lookup (env : Env) (name : String) : Run Value := do
  match (← get).bound? name with
  | some v => return v
  | none => Run.onWorld (ambientValue env name)

/-- Fail where a name cannot be assigned to. -/
def checkAssignable (name : String) : Run Unit :=
  match ContextName.ofName? name with
  | some c => Run.fail (.type (.readOnly c))
  | none => pure ()

/-- The state with the names changed to which an assignment to the given name goes. -/
def State.changeNames (name : String) (f : Entries → Entries) : State → State
  | ⟨globals, [], heap, host⟩ => ⟨f globals, [], heap, host⟩
  | ⟨globals, frame :: rest, heap, host⟩ =>
    if frame.declared.contains name then ⟨f globals, frame :: rest, heap, host⟩
    else ⟨globals, { frame with locals := f frame.locals } :: rest, heap, host⟩

/-- Bind a name. -/
def store (name : String) (v : Value) : Run Unit := do
  checkAssignable name
  modify (State.changeNames name (Entries.set name v))

/-- The names among which a name is bound when it is assigned to. -/
def State.namesOf (s : State) (name : String) : Entries :=
  match s.frameOf? name with
  | some frame => frame.locals
  | none => s.globals

/-- Unbind a name. -/
def unbind (name : String) : Run Unit := do
  checkAssignable name
  if (Entries.get? name ((← get).namesOf name)).isSome then
    modify (State.changeNames name (Entries.erase name))
  else
    Run.fail (.unbound name)

/-- Declare names global in the innermost call. Outside of calls all names are. -/
def declareGlobal (names : List String) : Run Unit :=
  modify fun
    | ⟨globals, [], heap, host⟩ => ⟨globals, [], heap, host⟩
    | ⟨globals, frame :: rest, heap, host⟩ =>
      ⟨globals, { frame with declared := frame.declared ++ names } :: rest, heap, host⟩

/-- The ways in which a program changes names. -/
inductive NameChange where
  | store (name : String) (v : Value)
  | unbind (name : String)
  | declareGlobal (names : List String)

/-- Change names. -/
def NameChange.run : NameChange → Run Unit
  | .store name v => Script.store name v
  | .unbind name => Script.unbind name
  | .declareGlobal names => Script.declareGlobal names

end NoteShell.Script
