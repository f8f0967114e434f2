import NoteShell.Json.Basic

/-!
# Skill arguments

A skill is called with JSON values, some by position and some by name. A value that is null counts
as not given.
-/

namespace NoteShell

/-- Why a skill failed. -/
inductive SkillError where
  | invalidArguments (message : String)
  | failed (message : String)
  | notFound (message : String)
deriving DecidableEq

/-- The wording of a failure. -/
def SkillError.message : SkillError → String
  | invalidArguments m => m
  | failed m => m
  | notFound m => "Not found: " ++ m

/-- The arguments of a skill call. -/
structure SkillArgs where
  positional : List Json
  keyword : Json.Members

/-- The word for the type of a JSON value. -/
def Json.typeWord : Json → String
  | null => "None"
  | bool _ => "bool"
  | float _ => "float"
  | int _ => "int"
  | str _ => "str"
  | arr _ => "list"
  | obj _ => "dict"

namespace SkillArgs

private def present : Json → Option Json
  | .null => none
  | j => some j

/-- The argument at a position, or with a name where there are fewer positions. -/
def get? (args : SkillArgs) (index : Nat) (name : String) : Option Json :=
  match args.positional[index]? with
  | some j => present j
  | none => (Json.find? name args.keyword).bind present

private def wrongType (name wanted : String) (got : Json) : SkillError :=
  .invalidArguments ("argument '" ++ name ++ "' must be a " ++ wanted ++ ", got " ++ got.typeWord)

private def asOptionalText (name : String) : Option Json → Except SkillError (Option String)
  | none => .ok none
  | some (.str s) => .ok (some s)
  | some other => .error (wrongType name "string" other)

/-- A text argument that may be missing. -/
def optionalText (args : SkillArgs) (index : Nat) (name : String) :
    Except SkillError (Option String) :=
  asOptionalText name (args.get? index name)

/-- A text argument that can only be given by name and may be missing. -/
def keywordText (args : SkillArgs) (name : String) : Except SkillError (Option String) :=
  asOptionalText name ((Json.find? name args.keyword).bind present)

/-- A text argument that must be given to the named skill. -/
def requiredText (args : SkillArgs) (index : Nat) (name skill : String) :
    Except SkillError String :=
  match args.optionalText index name with
  | .error e => .error e
  | .ok (some s) => .ok s
  | .ok none => .error (.invalidArguments (skill ++ "() missing required argument: '" ++ name ++ "'"))

/-- A truth value, or a default where it is missing. -/
def boolOr (args : SkillArgs) (index : Nat) (name : String) (default : Bool) :
    Except SkillError Bool :=
  match args.get? index name with
  | none => .ok default
  | some (.bool b) => .ok b
  | some other => .error (wrongType name "bool" other)

/-- Check that no argument has a name other than the allowed ones. -/
def onlyKeywords (args : SkillArgs) (skill : String) (allowed : List String) :
    Except SkillError Unit :=
  match args.keyword.find? fun e => !allowed.contains e.1 with
  | some (name, _) =>
    .error (.invalidArguments
      (skill ++ "() got an unexpected keyword argument '" ++ name ++ "'"))
  | none => .ok ()

/-- The number of arguments given by position. -/
def size (args : SkillArgs) : Nat := args.positional.length

/-- Whether no argument is given at all. -/
def isEmpty (args : SkillArgs) : Bool := args.positional.isEmpty && args.keyword.isEmpty

end SkillArgs

end NoteShell
