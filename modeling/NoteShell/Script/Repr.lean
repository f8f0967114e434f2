import NoteShell.Script.Error
import NoteShell.Script.Range
import NoteShell.Script.Value
import NoteShell.Text.Quoted

/-!
# Values as text

How values are shown. A container inside itself is shown as an ellipsis in its brackets, and
containers below 64 levels as an ellipsis alone. Neither is looked into, which matters for a dict
that is locked because it is being changed.
-/

namespace NoteShell.Script

open NoteShell.Decimal

/-- The deepest nesting of containers that is shown. -/
def maxShownNesting : Nat := 64

/-- The name of a function that a program has defined. -/
def Heap.functionName (h : Heap) (r : FunctionRef) : String := (h.function r).name

/-- The form of a value that is not a container. -/
def scalarRepr (h : Heap) : Value → String
  | .none => "None"
  | .bool true => "True"
  | .bool false => "False"
  | .int i => intText i.toInt
  | .float x => floatText x
  | .str s => Text.quoted s
  | .list _ => ""
  | .dict _ => ""
  | .range r =>
    if r.step = 1 then
      "range(" ++ intText r.start.toInt ++ ", " ++ intText r.stop.toInt ++ ")"
    else
      "range(" ++ intText r.start.toInt ++ ", " ++ intText r.stop.toInt ++ ", " ++
        intText r.step.toInt ++ ")"
  | .function r => "<function " ++ h.functionName r ++ ">"
  | .builtin b => "<built-in function " ++ b.name ++ ">"
  | .skill name => "<skill " ++ name ++ ">"
  | .strMethod _ m => "<built-in method " ++ m.name ++ " of str object>"
  | .listMethod _ m => "<built-in method " ++ m.name ++ " of list object>"
  | .dictMethod _ m => "<built-in method " ++ m.name ++ " of dict object>"
  | .type t => "<class '" ++ t.text ++ "'>"

/-- The form of a value inside the given open containers, with a number of levels left to show. -/
def reprWithin (h : Heap) :
    (levels : Nat) → (openLists : List ListRef) → (openDicts : List DictRef) → Value → String
  | levels, openLists, openDicts, .list r =>
    if openLists.contains r then "[...]"
    else
      match levels with
      | 0 => "..."
      | levels + 1 =>
        let shown := (h.items r).toList.map (reprWithin h levels (r :: openLists) openDicts)
        "[" ++ ", ".intercalate shown ++ "]"
  | levels, openLists, openDicts, .dict r =>
    if openDicts.contains r then "\x7b...\x7d"
    else
      match levels with
      | 0 => "..."
      | levels + 1 =>
        let shown := (h.entries r).map fun e =>
          Text.quoted e.1 ++ ": " ++ reprWithin h levels openLists (r :: openDicts) e.2
        "\x7b" ++ ", ".intercalate shown ++ "\x7d"
  | _, _, _, v => scalarRepr h v

/-- A value as shown in source code. -/
def reprValue (h : Heap) (v : Value) : String := reprWithin h maxShownNesting [] [] v

/-- Whether a dict is looked into when a value is shown, inside the given open containers and with a
number of levels left to show. -/
def looksInto (h : Heap) (dict : DictRef) :
    (levels : Nat) → (openLists : List ListRef) → (openDicts : List DictRef) → Value → Bool
  | levels, openLists, openDicts, .list r =>
    if openLists.contains r then false
    else
      match levels with
      | 0 => false
      | levels + 1 => (h.items r).toList.any (looksInto h dict levels (r :: openLists) openDicts)
  | levels, openLists, openDicts, .dict r =>
    if openDicts.contains r then false
    else
      match levels with
      | 0 => false
      | levels + 1 =>
        r == dict ||
          (h.entries r).any fun e => looksInto h dict levels openLists (r :: openDicts) e.2
  | _, _, _, _ => false

/-- A value as shown in source code while a dict is locked, which must not be looked into. -/
def reprUnless (h : Heap) (locked : DictRef) (v : Value) : Option String :=
  if looksInto h locked maxShownNesting [] [] v then none else some (reprValue h v)

/-- A value as text: a text itself, and any other value as shown in source code. -/
def strValue (h : Heap) : Value → String
  | .str s => s
  | v => reprValue h v

end NoteShell.Script
