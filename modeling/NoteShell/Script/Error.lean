import NoteShell.Grammar.Fault
import NoteShell.Grammar.Tree
import NoteShell.Script.Kind
import NoteShell.Skill.Args

/-!
# Errors of running commands

Every way in which running a command can fail, grouped by the kind that is reported, and its
wording.
-/

namespace NoteShell.Script

open NoteShell.Grammar
open NoteShell.Decimal

/-- A sign as an operator with one operand. -/
inductive Sign where
  | minus
  | plus
deriving DecidableEq

/-- The number of arguments that a builtin or a method takes. -/
inductive Arity where
  | between (least most : Nat)
  | atLeast (least : Nat)
deriving DecidableEq

/-- Values of the wrong type, and calls with the wrong arguments. -/
inductive TypeError where
  | readOnly (name : ContextName)
  | notUnpackable (got : TypeName)
  | notCallable (got : TypeName)
  | separatorType (got : TypeName)
  | frontmatterKeyType (got : TypeName)
  | frontmatterKeyMissing
  | tooManyPositional (function : String) (allowed given : Nat)
  | unexpectedKeyword (function keyword : String)
  | multipleValues (function parameter : String)
  | missingArguments (function : String) (parameters : List String)
  | wrongArity (function : String) (allowed : Arity) (given : Nat)
  | unsupportedOperands (op : BinaryOp) (left right : TypeName)
  | badOperand (sign : Sign) (got : TypeName)
  | badAbs (got : TypeName)
  | cannotConcatenate (wanted got : TypeName)
  | notOrdered (op : Comparison) (left right : TypeName)
  | textMember (got : TypeName)
  | notContainer (got : TypeName)
  | indexType (container : String) (got : TypeName)
  | notSubscriptable (got : TypeName)
  | noItemAssignment (got : TypeName)
  | noItemDeletion (got : TypeName)
  | keyType (got : TypeName)
  | sliceType
  | notIterable (got : TypeName)
  | noLength (got : TypeName)
  | notInteger (got : TypeName)
  | argumentNotText (function : String) (got : TypeName)
  | notConvertible (function : String) (got : TypeName)
  | sumOfTexts
  | notRoundable (got : TypeName)
  | argumentNotDict (function : String) (got : TypeName)
  | stripType (got : TypeName)
  | splitType (got : TypeName)
  | joinItem (position : Nat) (got : TypeName)
  | notMapping (got : TypeName)

/-- Values of the right type that are not acceptable. -/
inductive ValueError where
  | tooFewToUnpack (expected got : Nat)
  | tooManyToUnpack (expected : Nat)
  | fractionalPower
  | zeroStep
  | nanToInt
  | badBase
  | invalidInt (base : Int) (shown : String)
  | invalidFloat (shown : String)
  | emptyArgument (function : String)
  | formatLimit (digits : String)
  | invalidFormat (spec : String) (got : TypeName)
  | emptySeparator
  | notInList (shown : String)
  | removeMissing
  | circular
  | tooDeepForSkill

/-- Divisions by zero. -/
inductive ZeroDivisionError where
  | int
  | intQuotient
  | float
  | floatQuotient
  | floatRemainder
  | negativePower

/-- Positions outside of a sequence. -/
inductive IndexError where
  | list
  | text
  | range
  | assignment
  | popEmpty
  | pop

/-- Results that are too large. -/
inductive OverflowError where
  | integer
  | infinityToInt
  | rangeLength
  | sequence

/-- Why running a command failed. -/
inductive EvalError where
  | source (error : SourceError)
  | unbound (name : String)
  | type (error : TypeError)
  | value (error : ValueError)
  | zeroDivision (error : ZeroDivisionError)
  | index (error : IndexError)
  /-- A dict has no entry for the key shown. -/
  | key (shown : String)
  | noAttribute (got : TypeName) (name : String)
  | recursion
  | overflow (error : OverflowError)
  | raised (text : String)
  | skill (error : SkillError)

/-- The most items that a list or a text may have. -/
def maxSequence : Nat := 4194304

/-! ### Wording -/

private def opText : BinaryOp → String
  | .add => "+"
  | .sub => "-"
  | .mul => "*"
  | .div => "/"
  | .floorDiv => "//"
  | .mod => "%"
  | .pow => "** or pow()"

private def comparisonText : Comparison → String
  | .equal => "=="
  | .notEqual => "!="
  | .less => "<"
  | .lessEqual => "<="
  | .greater => ">"
  | .greaterEqual => ">="
  | .isIn => "in"
  | .notIn => "not in"
  | .same => "is"
  | .notSame => "is not"

private def pluralEnding (n : Nat) : String := if n = 1 then "" else "s"

private def quotedName (name : String) : String := "'" ++ name ++ "'"

/-- Names as they are listed in a sentence. -/
private def enumerate : List String → String
  | [] => ""
  | [a] => a
  | [a, b] => a ++ " and " ++ b
  | names => ", ".intercalate names.dropLast ++ ", and " ++ (names.getLast?.getD "")

private def arityText (function : String) (allowed : Arity) (given : Nat) : String :=
  let (least, most) : Nat × Option Nat :=
    match allowed with
    | .between least most => (least, some most)
    | .atLeast least => (least, none)
  if most = some least then
    if least = 1 then function ++ "() takes exactly one argument (" ++ natText given ++ " given)"
    else
      function ++ "() takes " ++ natText least ++ " positional arguments but " ++ natText given ++
        " were given"
  else if given < least then
    function ++ "() expected at least " ++ natText least ++ " arguments, got " ++ natText given
  else
    function ++ "() expected at most " ++ natText (most.getD 0) ++ " arguments, got " ++
      natText given

/-- The wording of a type error. -/
def TypeError.message : TypeError → String
  | readOnly name =>
    quotedName name.name ++ " is read-only; it mirrors the note's shared context"
  | notUnpackable got => "cannot unpack non-iterable " ++ got.text ++ " object"
  | notCallable got => quotedName got.text ++ " object is not callable"
  | separatorType got => "sep must be None or a string, not " ++ got.text
  | frontmatterKeyType got => "get_frontmatter() key must be str, not " ++ got.text
  | frontmatterKeyMissing => "get_frontmatter() missing 1 required positional argument: 'key'"
  | tooManyPositional function allowed given =>
    function ++ "() takes " ++ natText allowed ++ " positional argument" ++ pluralEnding allowed ++
      " but " ++ natText given ++ (if given = 1 then " was" else " were") ++ " given"
  | unexpectedKeyword function keyword =>
    function ++ "() got an unexpected keyword argument " ++ quotedName keyword
  | multipleValues function parameter =>
    function ++ "() got multiple values for argument " ++ quotedName parameter
  | missingArguments function parameters =>
    function ++ "() missing " ++ natText parameters.length ++ " required positional argument" ++
      pluralEnding parameters.length ++ ": " ++ enumerate (parameters.map quotedName)
  | wrongArity function allowed given => arityText function allowed given
  | unsupportedOperands op left right =>
    "unsupported operand type(s) for " ++ opText op ++ ": " ++ quotedName left.text ++ " and " ++
      quotedName right.text
  | badOperand .minus got => "bad operand type for unary -: " ++ quotedName got.text
  | badOperand .plus got => "bad operand type for unary +: " ++ quotedName got.text
  | badAbs got => "bad operand type for abs(): " ++ quotedName got.text
  | cannotConcatenate wanted got =>
    "can only concatenate " ++ wanted.text ++ " (not \"" ++ got.text ++ "\") to " ++ wanted.text
  | notOrdered op left right =>
    quotedName (comparisonText op) ++ " not supported between instances of " ++
      quotedName left.text ++ " and " ++ quotedName right.text
  | textMember got => "'in <string>' requires string as left operand, not " ++ got.text
  | notContainer got => "argument of type " ++ quotedName got.text ++ " is not iterable"
  | indexType container got =>
    container ++ " indices must be integers or slices, not " ++ got.text
  | notSubscriptable got => quotedName got.text ++ " object is not subscriptable"
  | noItemAssignment got => quotedName got.text ++ " object does not support item assignment"
  | noItemDeletion got => quotedName got.text ++ " object doesn't support item deletion"
  | keyType got => "dict keys must be str, not " ++ got.text
  | sliceType => "slice indices must be integers or None or have an __index__ method"
  | notIterable got => quotedName got.text ++ " object is not iterable"
  | noLength got => "object of type " ++ quotedName got.text ++ " has no len()"
  | notInteger got => quotedName got.text ++ " object cannot be interpreted as an integer"
  | argumentNotText function got => function ++ "() argument must be str, not " ++ got.text
  | notConvertible function got =>
    function ++ "() argument must be a string or a real number, not " ++ quotedName got.text
  | sumOfTexts => "sum() can't sum strings [use ''.join(seq) instead]"
  | notRoundable got => "type " ++ got.text ++ " doesn't define __round__ method"
  | argumentNotDict function got =>
    function ++ "() argument must be a dict, not " ++ quotedName got.text
  | stripType got => "strip arg must be None or str, not " ++ got.text
  | splitType got => "must be str or None, not " ++ got.text
  | joinItem position got =>
    "sequence item " ++ natText position ++ ": expected str instance, " ++ got.text ++ " found"
  | notMapping got => quotedName got.text ++ " object is not a mapping"

/-- The wording of a value error. -/
def ValueError.message : ValueError → String
  | tooFewToUnpack expected got =>
    "not enough values to unpack (expected " ++ natText expected ++ ", got " ++ natText got ++ ")"
  | tooManyToUnpack expected => "too many values to unpack (expected " ++ natText expected ++ ")"
  | fractionalPower => "negative number cannot be raised to a fractional power"
  | zeroStep => "range() arg 3 must not be zero"
  | nanToInt => "cannot convert float NaN to integer"
  | badBase => "int() base must be >= 2 and <= 36, or 0"
  | invalidInt base shown =>
    "invalid literal for int() with base " ++ intText base ++ ": " ++ shown
  | invalidFloat shown => "could not convert string to float: " ++ shown
  | emptyArgument function => function ++ "() arg is an empty sequence"
  | formatLimit digits => "format width or precision " ++ digits ++ " exceeds the limit of 10000"
  | invalidFormat spec got =>
    "Invalid format specifier '" ++ spec ++ "' for object of type " ++ quotedName got.text
  | emptySeparator => "empty separator"
  | notInList shown => shown ++ " is not in list"
  | removeMissing => "list.remove(x): x not in list"
  | circular => "Circular reference detected"
  | tooDeepForSkill => "containers nested more than 128 levels deep cannot be passed to a skill"

/-- The wording of a division by zero. -/
def ZeroDivisionError.message : ZeroDivisionError → String
  | int => "division by zero"
  | intQuotient => "integer division or modulo by zero"
  | float => "float division by zero"
  | floatQuotient => "float floor division by zero"
  | floatRemainder => "float modulo"
  | negativePower => "0.0 cannot be raised to a negative power"

/-- The wording of an index error. -/
def IndexError.message : IndexError → String
  | list => "list index out of range"
  | text => "string index out of range"
  | range => "range object index out of range"
  | assignment => "list assignment index out of range"
  | popEmpty => "pop from empty list"
  | pop => "pop index out of range"

/-- The wording of an overflow. -/
def OverflowError.message : OverflowError → String
  | integer => "integer overflow"
  | infinityToInt => "cannot convert float infinity to integer"
  | rangeLength => "range is too large to take its length"
  | sequence => "sequence too large (limit " ++ natText maxSequence ++ " items)"

/-- The wording of an error, as shown after its heading. -/
def EvalError.message : EvalError → String
  | source e => e.message
  | unbound name => "name " ++ quotedName name ++ " is not defined"
  | type e => e.message
  | value e => e.message
  | zeroDivision e => e.message
  | index e => e.message
  | key shown => shown
  | noAttribute got name => quotedName got.text ++ " object has no attribute " ++ quotedName name
  | recursion => "maximum recursion depth exceeded"
  | overflow e => e.message
  | raised text => text
  | skill e => e.message

end NoteShell.Script
