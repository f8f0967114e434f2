import NoteShell.Chart.Render
import NoteShell.Decimal.Notation
import NoteShell.Skill.Registry

/-!
# The plot skill

The skill `plot` draws the numbers it is given and writes the picture into the note. How a picture
is written is for the host to say.
-/

namespace NoteShell

open NoteShell.Decimal

/-- The number that an item of a series is, truth values counting as zero and one. -/
def seriesNumber? : Json → Option Float
  | .int i => some (Float.ofInt i)
  | .float x => some x
  | .bool b => some (if b then 1 else 0)
  | _ => none

/-- The numbers of a series. -/
private def seriesNumbers? : List Json → Option (List Float)
  | [] => some []
  | item :: rest => do
    let x ← seriesNumber? item
    let xs ← seriesNumbers? rest
    return x :: xs

/-- The numbers that the argument with the given name holds. -/
def seriesOf (name : String) (value : Json) : Except SkillError (List Float) :=
  match value with
  | .arr items =>
    match seriesNumbers? items with
    | some xs => .ok xs
    | none =>
      .error (.invalidArguments ("plot() argument '" ++ name ++ "' must contain only numbers"))
  | _ => .error (.invalidArguments ("plot() argument '" ++ name ++ "' must be a list of numbers"))

/-- The points that the arguments ask for. A single series gives the heights of points that are
numbered from zero. -/
private def plotSeries (args : SkillArgs) : Except SkillError (List Float × List Float) :=
  match args.get? 0 "x", args.get? 1 "y" with
  | some x, some y => do
    let xs ← seriesOf "x" x
    let ys ← seriesOf "y" y
    return (xs, ys)
  | some y, none => numbered y
  | none, some y => numbered y
  | none, none => .error (.invalidArguments "plot() missing required argument: 'y'")
where
  /-- Points at the given heights. -/
  numbered (y : Json) : Except SkillError (List Float × List Float) := do
    let ys ← seriesOf "y" y
    return ((List.range ys.length).map Float.ofNat, ys)

/-- The colour that the arguments ask for. There is no result where reading it is a crash. -/
private def plotColor (args : SkillArgs) : Except SkillError (Option Color) := do
  match ← args.keywordText "color" with
  | none => return some defaultLineColor
  | some spec =>
    match Color.read spec with
    | some (some color) => return some color
    | some none => .error (.invalidArguments ("'" ++ spec ++ "' is not a valid color value"))
    | none => return none

/-- The chart that the arguments ask for. There is no result where reading the colour is a crash. -/
def plotChart (args : SkillArgs) : Except SkillError (Option Picture) := do
  args.onlyKeywords "plot" ["x", "y", "color"]
  let (xs, ys) ← plotSeries args
  if xs.length ≠ ys.length then
    throw (.invalidArguments
      ("x and y must have same first dimension, but have shapes (" ++ natText xs.length ++
        ",) and (" ++ natText ys.length ++ ",)"))
  let color ← plotColor args
  return color.map (renderChart xs ys)

/-- The skill that draws a chart, where `address` gives the address under which a picture is
shown. -/
def plot (address : Picture → String) : Skill where
  name := "plot"
  action call host :=
    match plotChart call.args with
    | .error e => (.error e, host)
    | .ok (some picture) => (.ok (), host.emit ("![Plot](" ++ address picture ++ ")\n"))
    | .ok none => (.ok (), host.crash)

/-- The plot skill. -/
def plotModule (address : Picture → String) : SkillModule := .available "plot" [plot address]

end NoteShell
