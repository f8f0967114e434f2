import NoteShell.Chart.Picture

/-!
# Lines

A line is drawn by a pen that moves from its start to its end, one pixel at a time along the longer
side and now and then along the shorter one. At every place it leaves a square of its own thickness.

The pen has a distance to go on either side of its line. Measured along the shorter side it is never
farther from the line than half of a pixel, and so both distances end at the same time. This is why
the drawing of a line comes to an end.

## Main definitions

* `Pen.step` : the move of a pen towards the end of its line.
* `Pen.OnCourse` : a pen that keeps to its line, with its distances to go.
* `drawFrom` : the way of a pen to the end of its line.
* `Segment.draw` : a picture with a line drawn on it.

## Main results

* `Pen.step_cases` : what a move can be.
* `Pen.OnCourse.step` : what a move does to the distances to go.
* `Pen.KeepsTo.distance_step` : each move takes one from the distance to the end.
-/

namespace NoteShell

/-- A place in the plane of a picture. -/
@[ext]
structure Point where
  x : Int
  y : Int
deriving DecidableEq

/-- The number of moves from a place to another, where a move changes each coordinate by at most
one. -/
def Point.distance (a b : Point) : Nat := max (b.x - a.x).natAbs (b.y - a.y).natAbs

theorem Point.distance_eq_zero_iff {a b : Point} : a.distance b = 0 ↔ a = b := by
  rw [distance, Point.ext_iff]
  omega

/-- A straight line. -/
structure Segment where
  start : Point
  stop : Point

namespace Segment

/-- The extent of a line from left to right. -/
def width (s : Segment) : Int := (s.stop.x - s.start.x).natAbs

/-- The extent of a line from top to bottom. -/
def height (s : Segment) : Int := (s.stop.y - s.start.y).natAbs

/-- The direction of a line from left to right. -/
def stepX (s : Segment) : Int := if s.start.x < s.stop.x then 1 else -1

/-- The direction of a line from top to bottom. -/
def stepY (s : Segment) : Int := if s.start.y < s.stop.y then 1 else -1

/-! ### The sides of a line -/

variable (s : Segment)

/-- The number of moves from the start of a line to its end. -/
def length : Nat := s.start.distance s.stop

/-- How far a pen with the given distances to go is from its line. The sign tells on which side. -/
def stray (across down : Nat) : Int := s.height * across - s.width * down

theorem width_nonneg : 0 ≤ s.width := by
  rw [width]
  omega

theorem height_nonneg : 0 ≤ s.height := by
  rw [height]
  omega

theorem length_eq : (s.length : Int) = max s.width s.height := by
  rw [length, Point.distance, width, height]
  omega

private theorem add_natAbs_mul (a b : Int) :
    a + (b - a).natAbs * (if a < b then 1 else -1) = b := by
  split <;> omega

theorem start_x_add : s.start.x + s.width * s.stepX = s.stop.x := add_natAbs_mul _ _

theorem start_y_add : s.start.y + s.height * s.stepY = s.stop.y := add_natAbs_mul _ _

theorem stepX_eq : s.stepX = 1 ∨ s.stepX = -1 := by
  rw [stepX]
  split <;> simp

theorem stepY_eq : s.stepY = 1 ∨ s.stepY = -1 := by
  rw [stepY]
  split <;> simp

theorem stray_width_height {across down : Nat} (hacross : across = s.width)
    (hdown : down = s.height) :
    s.stray across down = 0 := by
  rw [stray, hacross, hdown, Int.mul_comm, Int.sub_self]

theorem stray_succ_left (across down : Nat) :
    s.stray (across + 1) down = s.stray across down + s.height := by
  rw [stray, stray, Int.natCast_succ, Int.mul_add]
  omega

theorem stray_succ_right (across down : Nat) :
    s.stray across (down + 1) = s.stray across down - s.width := by
  rw [stray, stray, Int.natCast_succ, Int.mul_add]
  omega

end Segment

/-- A pen on its way along a line. -/
structure Pen where
  place : Point
  /-- How far the pen has strayed from the line, in units that make it a whole number. -/
  balance : Int

namespace Pen

/-- The pen at the start of a line. -/
def atStart (s : Segment) : Pen := ⟨s.start, s.width - s.height⟩

/-- The move of a pen along a line. -/
def step (s : Segment) (pen : Pen) : Pen :=
  let twice := 2 * pen.balance
  let alongX := -s.height ≤ twice
  let alongY := twice ≤ s.width
  { place :=
      ⟨if alongX then pen.place.x + s.stepX else pen.place.x,
        if alongY then pen.place.y + s.stepY else pen.place.y⟩
    balance :=
      pen.balance - (if alongX then s.height else 0) + (if alongY then s.width else 0) }

/-! ### Moves -/

/-- The pen one place farther across. -/
def goAcross (s : Segment) (pen : Pen) : Pen :=
  ⟨⟨pen.place.x + s.stepX, pen.place.y⟩, pen.balance - s.height⟩

/-- The pen one place farther down. -/
def goDown (s : Segment) (pen : Pen) : Pen :=
  ⟨⟨pen.place.x, pen.place.y + s.stepY⟩, pen.balance + s.width⟩

variable {s : Segment} {pen : Pen} {across down : Nat}

@[simp]
theorem goAcross_x : (pen.goAcross s).place.x = pen.place.x + s.stepX := rfl

@[simp]
theorem goAcross_balance : (pen.goAcross s).balance = pen.balance - s.height := rfl

@[simp]
theorem goDown_y : (pen.goDown s).place.y = pen.place.y + s.stepY := rfl

@[simp]
theorem goDown_balance : (pen.goDown s).balance = pen.balance + s.width := rfl

/-- A move goes across, down or both ways, as the balance of the pen asks for. -/
theorem step_cases (s : Segment) (pen : Pen) :
    (s.width < 2 * pen.balance ∧ pen.step s = pen.goAcross s) ∨
    (-s.height ≤ 2 * pen.balance ∧ 2 * pen.balance ≤ s.width ∧
      pen.step s = (pen.goAcross s).goDown s) ∨
    (2 * pen.balance < -s.height ∧ pen.step s = pen.goDown s) := by
  have hwidth := s.width_nonneg
  have hheight := s.height_nonneg
  by_cases hx : -s.height ≤ 2 * pen.balance <;> by_cases hy : 2 * pen.balance ≤ s.width
  · exact .inr (.inl ⟨hx, hy, by simp [step, goAcross, goDown, hx, hy]⟩)
  · exact .inl ⟨by omega, by simp [step, goAcross, hx, hy]⟩
  · exact .inr (.inr ⟨by omega, by simp [step, goDown, hx, hy]⟩)
  · omega

/-! ### The distances to go -/

/-- The pen has the given distances to go, and its balance tells how far it is from its line. -/
structure HasToGo (s : Segment) (across down : Nat) (pen : Pen) : Prop where
  x_add : pen.place.x + across * s.stepX = s.stop.x
  y_add : pen.place.y + down * s.stepY = s.stop.y
  balance_eq : pen.balance = s.width - s.height + s.stray across down

/-- The pen is on its course: it is inside of the box around its line, and not farther from the line
than half of a pixel. -/
structure OnCourse (s : Segment) (across down : Nat) (pen : Pen) : Prop
    extends HasToGo s across down pen where
  across_le : across ≤ s.width
  down_le : down ≤ s.height
  neg_length_le : -s.length ≤ 2 * s.stray across down
  le_length : 2 * s.stray across down ≤ s.length

theorem HasToGo.goAcross (h : pen.HasToGo s (across + 1) down) :
    (pen.goAcross s).HasToGo s across down where
  x_add := by
    rw [← h.x_add, Int.natCast_succ, Int.add_mul, Int.one_mul, goAcross_x]
    omega
  y_add := h.y_add
  balance_eq := by
    rw [goAcross_balance, h.balance_eq, s.stray_succ_left]
    omega

theorem HasToGo.goDown (h : pen.HasToGo s across (down + 1)) :
    (pen.goDown s).HasToGo s across down where
  x_add := h.x_add
  y_add := by
    rw [← h.y_add, Int.natCast_succ, Int.add_mul, Int.one_mul, goDown_y]
    omega
  balance_eq := by
    rw [goDown_balance, h.balance_eq, s.stray_succ_right]
    omega

private theorem natAbs_sub_of_add {i step stop : Int} {rest : Nat} (hstep : step = 1 ∨ step = -1)
    (h : i + rest * step = stop) : (stop - i).natAbs = rest := by
  obtain rfl | rfl := hstep <;> omega

/-- The distance from the end of the line is the longer of the distances to go. -/
theorem HasToGo.distance_eq (h : pen.HasToGo s across down) :
    pen.place.distance s.stop = max across down := by
  rw [Point.distance, natAbs_sub_of_add s.stepX_eq h.x_add, natAbs_sub_of_add s.stepY_eq h.y_add]

/-! ### The course -/

/-- A pen that goes across only has farther to go across than down. The same holds with the sides
exchanged. -/
private theorem lt_of_lt_balance {w h : Int} {a b : Nat} (hh : 0 ≤ h) (hpos : 0 < max a b)
    (hnear : 2 * (h * a - w * b) ≤ max w h) (hbalance : w < 2 * (w - h + (h * a - w * b))) :
    b < a := by
  refine Nat.lt_of_not_le fun hle => ?_
  -- Near to a line with `w < h` the balance is too small for such a move.
  have hwide : 0 ≤ w - h := by omega
  have ha : h * a ≤ h * b := Int.mul_le_mul_of_nonneg_left (Int.ofNat_le.mpr hle) hh
  have hb : (w - h) * 1 ≤ (w - h) * b := Int.mul_le_mul_of_nonneg_left (by omega) hwide
  rw [Int.mul_one, Int.sub_mul] at hb
  omega

/-- A pen that goes down has some way to go down. The same holds with the sides exchanged. -/
private theorem pos_of_balance_le {w h : Int} {a b : Nat} (hh : 0 ≤ h) (ha : a ≤ w)
    (hpos : 0 < max a b) (hbalance : 2 * (w - h + (h * a - w * b)) ≤ w) : 0 < b := by
  refine Nat.pos_of_ne_zero fun hb => ?_
  subst hb
  have hone : h * 1 ≤ h * a := Int.mul_le_mul_of_nonneg_left (by omega) hh
  rw [Int.mul_one] at hone
  rw [Int.natCast_zero, Int.mul_zero] at hbalance
  omega

namespace OnCourse

theorem lt_of_goAcross (h : pen.OnCourse s across down) (hpos : 0 < max across down)
    (hbalance : s.width < 2 * pen.balance) : down < across := by
  have hnear := h.le_length
  rw [s.length_eq, Segment.stray] at hnear
  rw [h.balance_eq, Segment.stray] at hbalance
  exact lt_of_lt_balance s.height_nonneg hpos hnear hbalance

theorem lt_of_goDown (h : pen.OnCourse s across down) (hpos : 0 < max across down)
    (hbalance : 2 * pen.balance < -s.height) : across < down := by
  have hnear := h.neg_length_le
  rw [s.length_eq, Segment.stray] at hnear
  rw [h.balance_eq, Segment.stray] at hbalance
  exact lt_of_lt_balance s.width_nonneg (w := s.height) (by omega) (by omega) (by omega)

theorem pos_of_goBoth (h : pen.OnCourse s across down) (hpos : 0 < max across down)
    (hlow : -s.height ≤ 2 * pen.balance) (hhigh : 2 * pen.balance ≤ s.width) :
    0 < across ∧ 0 < down := by
  rw [h.balance_eq, Segment.stray] at hlow hhigh
  exact ⟨pos_of_balance_le s.width_nonneg h.down_le (by omega) (by omega),
    pos_of_balance_le s.height_nonneg h.across_le hpos hhigh⟩

/-- A pen that is not at the end of its line stays on its course with the next move, which takes one
from the longer distance to go and at most one from the other. -/
theorem step (h : pen.OnCourse s across down) (hstop : pen.place ≠ s.stop) :
    ∃ across' down', (pen.step s).OnCourse s across' down' ∧
      max across' down' + 1 = max across down ∧
      (across = across' ∨ across = across' + 1) ∧ (down = down' ∨ down = down' + 1) := by
  have hpos : 0 < max across down := by
    rw [← h.distance_eq]
    exact Nat.pos_of_ne_zero (mt Point.distance_eq_zero_iff.mp hstop)
  have hwidth := s.width_nonneg
  have hheight := s.height_nonneg
  have hlength := s.length_eq
  have hacross := h.across_le
  have hdown := h.down_le
  have hlow := h.neg_length_le
  have hhigh := h.le_length
  have hbalance := h.balance_eq
  -- In each case the new bounds follow from the case and from what the move adds to `stray`.
  obtain ⟨hcase, hstep⟩ | ⟨hcase, hcase', hstep⟩ | ⟨hcase, hstep⟩ := step_cases s pen
  · have hlt := h.lt_of_goAcross hpos hcase
    obtain ⟨a, rfl⟩ : ∃ a, across = a + 1 := ⟨across - 1, by omega⟩
    have hstray := s.stray_succ_left a down
    refine ⟨a, down, ?_, by omega, .inr rfl, .inl rfl⟩
    rw [hstep]
    exact ⟨h.toHasToGo.goAcross, by omega, by omega, by omega, by omega⟩
  · obtain ⟨ha, hb⟩ := h.pos_of_goBoth hpos hcase hcase'
    obtain ⟨a, rfl⟩ : ∃ a, across = a + 1 := ⟨across - 1, by omega⟩
    obtain ⟨b, rfl⟩ : ∃ b, down = b + 1 := ⟨down - 1, by omega⟩
    have hstray := s.stray_succ_left a (b + 1)
    have hstray' := s.stray_succ_right a b
    refine ⟨a, b, ?_, by omega, .inr rfl, .inr rfl⟩
    rw [hstep]
    exact ⟨h.toHasToGo.goAcross.goDown, by omega, by omega, by omega, by omega⟩
  · have hlt := h.lt_of_goDown hpos hcase
    obtain ⟨b, rfl⟩ : ∃ b, down = b + 1 := ⟨down - 1, by omega⟩
    have hstray := s.stray_succ_right across b
    refine ⟨across, b, ?_, by omega, .inl rfl, .inr rfl⟩
    rw [hstep]
    exact ⟨h.toHasToGo.goDown, by omega, by omega, by omega, by omega⟩

end OnCourse

/-- The pen at the start of a line has its width and its height to go. -/
theorem onCourse_atStart (s : Segment) :
    (atStart s).OnCourse s s.width.toNat s.height.toNat := by
  have hacross : (s.width.toNat : Int) = s.width := Int.toNat_of_nonneg s.width_nonneg
  have hdown : (s.height.toNat : Int) = s.height := Int.toNat_of_nonneg s.height_nonneg
  have hstray := s.stray_width_height hacross hdown
  refine ⟨⟨?_, ?_, ?_⟩, by omega, by omega, by omega, by omega⟩
  · rw [hacross]
    exact s.start_x_add
  · rw [hdown]
    exact s.start_y_add
  · rw [hstray, Int.add_zero]
    rfl

/-- A pen keeps to its line if it is on its course with some distances to go. -/
def KeepsTo (s : Segment) (pen : Pen) : Prop := ∃ across down, pen.OnCourse s across down

theorem KeepsTo.step (h : pen.KeepsTo s) (hstop : pen.place ≠ s.stop) : (pen.step s).KeepsTo s := by
  obtain ⟨across, down, hcourse⟩ := h
  obtain ⟨across', down', hcourse', -⟩ := hcourse.step hstop
  exact ⟨across', down', hcourse'⟩

/-- Each move takes one from the distance to the end. -/
theorem KeepsTo.distance_step (h : pen.KeepsTo s) (hstop : pen.place ≠ s.stop) :
    (pen.step s).place.distance s.stop + 1 = pen.place.distance s.stop := by
  obtain ⟨across, down, hcourse⟩ := h
  obtain ⟨across', down', hcourse', hmax, -, -⟩ := hcourse.step hstop
  rwa [hcourse.distance_eq, hcourse'.distance_eq]

end Pen

/-! ### The picture -/

/-- A column of a pen's square, from the given offset on. -/
private def stampColumn (color : Color) (x y : Int) : (count : Nat) → Picture → Picture
  | 0, p => p
  | count + 1, p => stampColumn color x (y + 1) count (p.put x y color)

/-- The columns of a pen's square. -/
private def stampColumns (color : Color) (x y : Int) (rows : Nat) : (count : Nat) → Picture → Picture
  | 0, p => p
  | count + 1, p => stampColumns color (x + 1) y rows count (stampColumn color x y rows p)

/-- The square that a pen leaves around a place. One of an even thickness reaches farther to the
left and to the top. -/
def stamp (color : Color) (thickness : Nat) (place : Point) (p : Picture) : Picture :=
  let half : Int := thickness / 2
  stampColumns color (place.x - half) (place.y - half) thickness thickness p

/-- Draw on from where the pen is until it is at the end of the line. A pen that keeps to the line
gets there. -/
def drawFrom (s : Segment) (color : Color) (thickness : Nat) (pen : Pen) (h : pen.KeepsTo s)
    (p : Picture) : Picture :=
  let p := stamp color thickness pen.place p
  if hstop : pen.place = s.stop then p
  else drawFrom s color thickness (pen.step s) (h.step hstop) p
termination_by pen.place.distance s.stop
decreasing_by
  have hdistance := h.distance_step hstop
  omega

/-- A picture with a line drawn on it. -/
def Segment.draw (s : Segment) (color : Color) (thickness : Nat) (p : Picture) : Picture :=
  drawFrom s color thickness (.atStart s) ⟨_, _, Pen.onCourse_atStart s⟩ p

end NoteShell
