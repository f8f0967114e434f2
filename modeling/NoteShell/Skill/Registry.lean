import NoteShell.Skill.Args
import NoteShell.Host.Basic
import NoteShell.Host.NoteContext
import NoteShell.Text.Lines

/-!
# Skills and their names

A skill is a named action on the host. The registry binds names to skills, or to the reason why a
skill is unavailable, in the order of registration. A name is bound once and for all, and reserved
names are never bound.
-/

namespace NoteShell

/-- What a skill is called with. -/
structure SkillCall where
  args : SkillArgs
  note : NoteContext

/-- What a skill does: it may change the host, also when it fails. -/
abbrev SkillAction := SkillCall → Host → Except SkillError Unit × Host

/-- A named action. -/
structure Skill where
  name : String
  action : SkillAction

/-- What a name in the registry is bound to. -/
inductive SkillBinding where
  | available (skill : Skill)
  | unavailable (module reason : String)

/-- Whether a binding can be called with effect. -/
def SkillBinding.isAvailable : SkillBinding → Bool
  | available _ => true
  | unavailable .. => false

/-- A group of skills that are available together, or not at all for some reason. -/
inductive SkillModule where
  | available (name : String) (skills : List Skill)
  | unavailable (name : String) (skills : List String) (reason : String)

/-- What came of a registration. -/
inductive RegisterOutcome where
  | registered
  | skipped (reason : String)
deriving DecidableEq

/-- What names are bound to, the bound names in order, and the names that cannot be bound. -/
structure Registry where
  reserved : List String
  /-- The bindings, to be found by name. -/
  bindings : List (String × SkillBinding)
  /-- The bound names in order of registration. -/
  order : List String

namespace Registry

/-- A registry without bindings. -/
def empty (reserved : List String) : Registry := ⟨reserved, [], []⟩

/-- The binding of a name. -/
def get? (r : Registry) (name : String) : Option SkillBinding := r.bindings.lookup name

/-- Whether a name is bound. -/
def contains (r : Registry) (name : String) : Bool := (r.get? name).isSome

/-- The bound names in order of registration. -/
def names (r : Registry) : List String := r.order

/-- The names of available skills in order of registration. -/
def availableNames (r : Registry) : List String :=
  r.order.filter fun name => (r.get? name).any SkillBinding.isAvailable

/-- The number of bound names. -/
def size (r : Registry) : Nat := r.bindings.length

/-- Bind a name, unless it is reserved or already bound. -/
def register (r : Registry) (name : String) (binding : SkillBinding) : RegisterOutcome × Registry :=
  if r.reserved.contains name then (.skipped ("'" ++ name ++ "' is a core name"), r)
  else if r.contains name then (.skipped ("'" ++ name ++ "' is already registered"), r)
  else
    (.registered,
      { r with bindings := (name, binding) :: r.bindings, order := r.order ++ [name] })

/-- Bind a skill to its name. -/
def registerSkill (r : Registry) (skill : Skill) : RegisterOutcome × Registry :=
  r.register skill.name (.available skill)

/-- Bind several names in order. -/
def registerAll (r : Registry) : List (String × SkillBinding) → List RegisterOutcome × Registry
  | [] => ([], r)
  | (name, binding) :: rest =>
    let (outcome, r) := r.register name binding
    let (outcomes, r) := r.registerAll rest
    (outcome :: outcomes, r)

/-- The bindings that a module asks for. -/
def bindingsOf : SkillModule → List (String × SkillBinding)
  | .available _ skills => skills.map fun s => (s.name, .available s)
  | .unavailable module names reason => names.map fun n => (n, .unavailable module reason)

/-- Bind the skills of a module in order. -/
def registerModule (r : Registry) (m : SkillModule) : List RegisterOutcome × Registry :=
  r.registerAll (bindingsOf m)

/-- Call the skill that a name is bound to. Calling an unavailable skill writes the first line of
the reason. -/
def invoke (r : Registry) (name : String) : SkillAction := fun call host =>
  match r.get? name with
  | some (.available skill) => skill.action call host
  | some (.unavailable _ reason) => (.ok (), host.log ((Text.lines reason).headD ""))
  | none => (.error (.notFound ("Skill not found: " ++ name)), host)

end Registry

end NoteShell
