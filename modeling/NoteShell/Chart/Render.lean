import NoteShell.Chart.Line

/-!
# Charts

A chart shows the points of a series of numbers, connected by lines, in a frame with a grid. The
scales are chosen so that the points fill the frame but for a narrow margin.

## Main definitions

* `Scale.ofSeries` : the scale for a series of numbers.
* `renderChart` : the picture of a chart.
-/

namespace NoteShell

/-- The smallest and the largest number of a scale. -/
structure Scale where
  low : Float
  high : Float

namespace Scale

private def infinity : Float := 1.0 / 0.0

/-- The smaller of two numbers; an undefined one is passed over. -/
private def smaller (a b : Float) : Float := if b < a then b else a

/-- The larger of two numbers; an undefined one is passed over. -/
private def larger (a b : Float) : Float := if a < b then b else a

/-- The least difference that counts as a span. -/
def epsilon : Float := 2.220446049250313e-16

/-- The scale for a series of numbers. Without finite bounds it goes from zero to one, and around a
single number it has a span of two. -/
def ofSeries (values : List Float) : Scale :=
  let low := values.foldl smaller infinity
  let high := values.foldl larger (-infinity)
  if !low.isFinite || !high.isFinite then ⟨0, 1⟩
  else if (high - low).abs < epsilon then ⟨low - 1, high + 1⟩
  else
    let pad := (high - low) * 0.05
    ⟨low - pad, high + pad⟩

/-- Where a number lies between the ends of a scale, as a fraction of its span. -/
def fraction (s : Scale) (x : Float) : Float := (x - s.low) / (s.high - s.low)

end Scale

/-! ### The frame -/

/-- The width of a chart in pixels. -/
def chartWidth : Nat := 600

/-- The height of a chart in pixels. -/
def chartHeight : Nat := 400

private def left : Int := 50
private def right : Int := 580
private def top : Int := 20
private def bottom : Int := 360

/-- The number of fields of the grid in each direction. -/
def gridDivisions : Nat := 8

private def background : Color := ⟨255, 255, 255⟩
private def axisColor : Color := ⟨0, 0, 0⟩
private def gridColor : Color := ⟨221, 221, 221⟩

/-- The colour of a line for which none is asked. -/
def defaultLineColor : Color := ⟨31, 119, 180⟩

/-- An upright line through the frame. -/
private def upright (x : Int) : Segment := ⟨⟨x, top⟩, ⟨x, bottom⟩⟩

/-- A level line through the frame. -/
private def level (y : Int) : Segment := ⟨⟨left, y⟩, ⟨right, y⟩⟩

/-- The lines of the grid, in the order in which they are drawn. -/
def gridLines : List Segment :=
  (List.range (gridDivisions + 1)).flatMap fun (i : Nat) =>
    [upright (left + (right - left) * i / gridDivisions),
      level (top + (bottom - top) * i / gridDivisions)]

/-- The sides of the frame, in the order in which they are drawn. -/
def frameLines : List Segment := [upright left, level bottom, upright right, level top]

/-- An empty chart. -/
def emptyChart : Picture :=
  let blank := Picture.filled chartWidth chartHeight background
  let grid := gridLines.foldl (fun p s => s.draw gridColor 1 p) blank
  frameLines.foldl (fun p s => s.draw axisColor 1 p) grid

/-! ### The points -/

/-- The pixel that is nearest to a coordinate. An undefined one is zero, and those beyond 64 bits
stay at the last integer. -/
def nearestPixel (x : Float) : Int := x.round.toInt64.toInt

/-- Where a point is drawn. -/
def project (xs ys : Scale) (x y : Float) : Point :=
  { x := nearestPixel (Float.ofInt left + xs.fraction x * Float.ofInt (right - left))
    y := nearestPixel (Float.ofInt bottom - ys.fraction y * Float.ofInt (bottom - top)) }

/-- The points that are drawn. Those that are not finite are left out. -/
def chartPoints (xs ys : List Float) : List Point :=
  let scaleX := Scale.ofSeries xs
  let scaleY := Scale.ofSeries ys
  ((xs.zip ys).filter fun e => e.1.isFinite && e.2.isFinite).map fun e =>
    project scaleX scaleY e.1 e.2

/-- Connect neighbouring points by lines. -/
def drawPath (color : Color) : List Point → Picture → Picture
  | a :: b :: rest, p => drawPath color (b :: rest) (Segment.draw ⟨a, b⟩ color 2 p)
  | _, p => p

/-- Draw the points of a series: a dot for a single point, else the lines between them. -/
def drawPoints (color : Color) (points : List Point) (p : Picture) : Picture :=
  match points with
  | [point] => Segment.draw ⟨point, point⟩ color 3 p
  | points => drawPath color points p

/-- The chart of a series of points. -/
def renderChart (xs ys : List Float) (color : Color) : Picture :=
  drawPoints color (chartPoints xs ys) emptyChart

end NoteShell
