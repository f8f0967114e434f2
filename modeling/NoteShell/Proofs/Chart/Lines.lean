import Mathlib.Order.Interval.Set.UnorderedInterval
import Mathlib.Algebra.Order.Group.Int
import NoteShell.Chart.Line

/-!
# Lines

A pen gets to the end of every line, whatever the direction of the line, after as many moves as the
longer side asks for. No move leads away from the end or past it, and the pen stays in the box
around the line.

## Main definitions

* `IsMoveTowards` : a move that leads nearer to a place.
* `Segment.box` : the box around a line.

## Main results

* `Pen.KeepsTo.isMoveTowards`, `Pen.KeepsTo.mem_box` : what a pen does with each move, and where it
  is.
* `drawFrom_eq` : the picture that a pen leaves.
* `Segment.pen_arrives` : the way of a pen along a line.
-/

namespace NoteShell

/-- A move from a place to the next leads nearer to a target: each coordinate stays or goes by one
in the direction of the target, and the distance from the target gets shorter by one. -/
structure IsMoveTowards (target place next : Point) : Prop where
  x : next.x = place.x ∨ next.x = place.x + (target.x - place.x).sign
  y : next.y = place.y ∨ next.y = place.y + (target.y - place.y).sign
  nearer : next.distance target + 1 = place.distance target

/-- The places in the box around a line. -/
def Segment.box (s : Segment) : Set Point :=
  {q | q.x ∈ Set.uIcc s.start.x s.stop.x ∧ q.y ∈ Set.uIcc s.start.y s.stop.y}

/-! ### Coordinates

A coordinate goes from `start` to `stop` by steps of `1` or `-1`, and has `rest` of them to go. -/

section Coordinate

variable {start stop step i j : Int} {rest rest' : Nat}

theorem mem_uIcc_of_add {total : Int} (hstep : step = 1 ∨ step = -1)
    (hstart : start + total * step = stop) (hi : i + rest * step = stop) (hrest : rest ≤ total) :
    i ∈ Set.uIcc start stop := by
  rw [Set.mem_uIcc]
  obtain rfl | rfl := hstep <;> omega

theorem stays_or_approaches (hstep : step = 1 ∨ step = -1) (hi : i + rest * step = stop)
    (hj : j + rest' * step = stop) (hrest : rest = rest' ∨ rest = rest' + 1) :
    j = i ∨ j = i + (stop - i).sign := by
  obtain rfl | rfl := hrest
  · left
    omega
  · right
    obtain rfl | rfl := hstep
    · rw [Int.sign_eq_one_of_pos (by omega)]
      omega
    · rw [Int.sign_eq_neg_one_of_neg (by omega)]
      omega

end Coordinate

/-! ### Moves -/

namespace Pen

variable {s : Segment} {pen : Pen}

theorem KeepsTo.mem_box (h : pen.KeepsTo s) : pen.place ∈ s.box := by
  obtain ⟨across, down, hcourse⟩ := h
  exact ⟨mem_uIcc_of_add s.stepX_eq s.start_x_add hcourse.x_add hcourse.across_le,
    mem_uIcc_of_add s.stepY_eq s.start_y_add hcourse.y_add hcourse.down_le⟩

theorem KeepsTo.isMoveTowards (h : pen.KeepsTo s) (hstop : pen.place ≠ s.stop) :
    IsMoveTowards s.stop pen.place (pen.step s).place := by
  have hdistance := h.distance_step hstop
  obtain ⟨across, down, hcourse⟩ := h
  obtain ⟨across', down', hcourse', -, hacross, hdown⟩ := hcourse.step hstop
  exact ⟨stays_or_approaches s.stepX_eq hcourse.x_add hcourse'.x_add hacross,
    stays_or_approaches s.stepY_eq hcourse.y_add hcourse'.y_add hdown, hdistance⟩

/-- The pen after a number of moves. -/
def after (s : Segment) : Nat → Pen → Pen
  | 0, pen => pen
  | n + 1, pen => after s n (pen.step s)

theorem after_succ (s : Segment) (n : Nat) (pen : Pen) :
    pen.after s (n + 1) = (pen.after s n).step s := by
  induction n generalizing pen with
  | zero => rfl
  | succ n ih => exact ih (pen.step s)

end Pen

/-! ### The whole way -/

/-- The pen leaves a square at every place on its way, and makes as many moves as its distance from
the end. -/
theorem drawFrom_eq {s : Segment} {pen : Pen} {color : Color} {thickness : Nat}
    {p : Picture} {k : Nat}
    (h : pen.KeepsTo s) (hdistance : pen.place.distance s.stop = k) :
    drawFrom s color thickness pen h p =
      (List.range (k + 1)).foldl (fun p n => stamp color thickness (pen.after s n).place p) p := by
  induction k generalizing pen p with
  | zero =>
    rw [drawFrom]
    exact dif_pos (Point.distance_eq_zero_iff.mp hdistance)
  | succ k ih =>
    have hstop : pen.place ≠ s.stop := mt Point.distance_eq_zero_iff.mpr (by omega)
    have hstep := h.distance_step hstop
    rw [drawFrom, dif_neg hstop, ih (h.step hstop) (by omega), List.range_succ_eq_map (n := k + 1),
      List.foldl_cons, List.foldl_map]
    rfl

namespace Segment

variable (s : Segment) {n : Nat}

/-- The pen after a number of moves along a line. -/
def penAfter (n : Nat) : Pen := (Pen.atStart s).after s n

/-- Where the pen is after a number of moves along a line. -/
def place (n : Nat) : Point := (s.penAfter n).place

theorem penAfter_succ (n : Nat) : s.penAfter (n + 1) = (s.penAfter n).step s :=
  Pen.after_succ s n (.atStart s)

theorem keepsTo_penAfter (hn : n ≤ s.length) :
    (s.penAfter n).KeepsTo s ∧ n + (s.place n).distance s.stop = s.length := by
  induction n with
  | zero => exact ⟨⟨_, _, Pen.onCourse_atStart s⟩, Nat.zero_add _⟩
  | succ n ih =>
    obtain ⟨hkeeps, hlength⟩ := ih (by omega)
    have hstop : s.place n ≠ s.stop := mt Point.distance_eq_zero_iff.mpr (by omega)
    have hdistance : _ + 1 = (s.place n).distance s.stop := hkeeps.distance_step hstop
    rw [place, penAfter_succ]
    exact ⟨hkeeps.step hstop, by omega⟩

theorem place_eq_stop_iff (hn : n ≤ s.length) : s.place n = s.stop ↔ n = s.length := by
  have hlength := (s.keepsTo_penAfter hn).2
  rw [← Point.distance_eq_zero_iff]
  omega

theorem isMoveTowards_place (hn : n < s.length) :
    IsMoveTowards s.stop (s.place n) (s.place (n + 1)) := by
  have hstop : s.place n ≠ s.stop := mt (s.place_eq_stop_iff hn.le).mp hn.ne
  have hmove := (s.keepsTo_penAfter hn.le).1.isMoveTowards hstop
  rwa [← penAfter_succ] at hmove

/-- Drawing a line ends after as many moves as the longer of the distances between its ends on
either side: the pen leaves its square at the places where it is after none, one and more moves up
to that number, is at the end of the line then, and was not there before. Each move leads nearer to
the end, and the pen never leaves the box around the line. -/
theorem pen_arrives (s : Segment) :
    (∀ color thickness p, s.draw color thickness p =
      (List.range (s.length + 1)).foldl (fun p n => stamp color thickness (s.place n) p) p) ∧
    s.length = max (s.stop.x - s.start.x).natAbs (s.stop.y - s.start.y).natAbs ∧
    s.place 0 = s.start ∧ s.place s.length = s.stop ∧
    (∀ n < s.length, s.place n ≠ s.stop ∧ IsMoveTowards s.stop (s.place n) (s.place (n + 1))) ∧
    ∀ n ≤ s.length, s.place n ∈ s.box := by
  have hstop (n : Nat) (hn : n ≤ s.length) := s.place_eq_stop_iff hn
  refine ⟨fun color thickness p => drawFrom_eq _ rfl, rfl, rfl, (hstop _ le_rfl).mpr rfl,
    fun n hn => ⟨mt (hstop n hn.le).mp hn.ne, s.isMoveTowards_place hn⟩, fun n hn => ?_⟩
  exact (s.keepsTo_penAfter hn).1.mem_box

example : (List.range 6).map (place ⟨⟨0, 0⟩, ⟨-2, 5⟩⟩) =
    [⟨0, 0⟩, ⟨0, 1⟩, ⟨-1, 2⟩, ⟨-1, 3⟩, ⟨-2, 4⟩, ⟨-2, 5⟩] := by
  decide

end Segment

end NoteShell
