/-!
Straight lines on a grid, both end points included, by Bresenham's integer method: `error` weighs
how far the pen is from the ideal line, and decides at each point whether it steps along x, along y
or both.
-/

namespace RemoteScreen.Line

/-- The pen that draws a line, at a point of it. -/
structure Pen where
  x : Int
  y : Int
  error : Int
  deriving DecidableEq

/-- The unit step from `a` towards `b`; backwards if they are equal. -/
def direction (a b : Int) : Int :=
  if a < b then 1 else -1

/-- The two extents of a line, the second one negative, and its unit steps. -/
structure Slope where
  dx : Int
  dy : Int
  sx : Int
  sy : Int
  deriving DecidableEq

/-- The slope of the line from one point to another. -/
def Slope.between (x₀ y₀ x₁ y₁ : Int) : Slope where
  dx := (x₁ - x₀).natAbs
  dy := -(y₁ - y₀).natAbs
  sx := direction x₀ x₁
  sy := direction y₀ y₁

/-- The pen at the next point. -/
def Pen.step (m : Slope) (p : Pen) : Pen :=
  let e₂ := 2 * p.error
  let p := if m.dy ≤ e₂ then { p with error := p.error + m.dy, x := p.x + m.sx } else p
  if e₂ ≤ m.dx then { p with error := p.error + m.dx, y := p.y + m.sy } else p

/-- The pen at each point from `p` on: up to the goal, or for `fuel` points if they are fewer. -/
def Pen.trace (m : Slope) (goal : Int × Int) : Nat → Pen → List Pen
  | 0, _ => []
  | fuel + 1, p =>
    if (p.x, p.y) = goal then [p] else p :: Pen.trace m goal fuel (p.step m)

/-- The pen at the first point of a line. -/
def Slope.start (m : Slope) (x y : Int) : Pen :=
  ⟨x, y, m.dx + m.dy⟩

/-- The points of the line from `(x₀, y₀)` to `(x₁, y₁)`, in order. Each step leads one column or
one row on, so the number of points is one more than the larger extent. -/
def points (x₀ y₀ x₁ y₁ : Nat) : List (Nat × Nat) :=
  let m := Slope.between x₀ y₀ x₁ y₁
  let fuel := max m.dx.natAbs m.dy.natAbs + 1
  ((m.start x₀ y₀).trace m (x₁, y₁) fuel).map fun p => (p.x.toNat, p.y.toNat)

end RemoteScreen.Line
