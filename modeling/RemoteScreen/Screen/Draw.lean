import RemoteScreen.Screen.Basic
import RemoteScreen.Screen.Line

/-!
Drawing. Each operation first checks that it stays on the screen, and then places a list of cells;
`paint` is the only way in which drawing changes a screen.
-/

namespace RemoteScreen.Screen

/-- A cell and the index where it is placed. -/
abbrev Placement := Nat × Cell

/-- Places cells, the later ones over the earlier ones. -/
def paint (s : Screen) (placements : List Placement) : Screen :=
  { s with target := placements.foldl (fun t p => t.setIfInBounds p.1 p.2) s.target }

@[simp] theorem paint_nil (s : Screen) : s.paint [] = s := rfl

theorem paint_append (s : Screen) (ps qs : List Placement) :
    s.paint (ps ++ qs) = (s.paint ps).paint qs := by
  simp [paint, List.foldl_append]

/-- Painting changes cells that should show, and nothing else. -/
theorem paint_eq (s : Screen) (ps : List Placement) :
    s.paint ps = { s with target := (s.paint ps).target } := rfl

@[simp] theorem size_target_paint (s : Screen) (ps : List Placement) :
    (s.paint ps).target.size = s.target.size := by
  induction ps generalizing s with
  | nil => rfl
  | cons p ps ih =>
    rw [← List.singleton_append, paint_append, ih]
    simp [paint]

/-- A place that no placement names keeps its cell. -/
theorem getElem?_target_paint_of_forall_ne {s : Screen} {ps : List Placement} {i : Nat}
    (h : ∀ p ∈ ps, p.1 ≠ i) : (s.paint ps).target[i]? = s.target[i]? := by
  induction ps generalizing s with
  | nil => rfl
  | cons p ps ih =>
    rw [← List.singleton_append, paint_append, ih fun q hq => h q (List.mem_cons_of_mem _ hq)]
    exact Array.getElem?_setIfInBounds_ne (h p List.mem_cons_self)

/-- A place shows the last cell that was placed there. -/
theorem getElem?_target_paint_append_cons {s : Screen} {ps qs : List Placement} {p : Placement}
    (hp : p.1 < s.target.size) (hq : ∀ q ∈ qs, q.1 ≠ p.1) :
    (s.paint (ps ++ p :: qs)).target[p.1]? = some p.2 := by
  rw [paint_append, ← List.singleton_append, paint_append,
    getElem?_target_paint_of_forall_ne hq]
  simp only [paint, List.foldl_cons, List.foldl_nil]
  rw [Array.getElem?_setIfInBounds_self_of_lt]
  exact Nat.lt_of_lt_of_eq hp (size_target_paint s ps).symm

/-- A code point in the drawing style. -/
def ink (s : Screen) (cp : Nat) : Cell :=
  s.style.withCodePoint cp

/-- Fails unless the cell in column `x` of row `y` is on the screen. -/
def checkCell (s : Screen) (x y : Nat) : Except Fault Unit :=
  if s.Contains x y then .ok () else .error (.cellOutside x y s.width s.height)

/-- Fails unless the block of `w` columns and `h` rows at `(x, y)` lies on the screen; an empty
block may lie at its edge. -/
def checkBlock (s : Screen) (x y w h : Nat) : Except Fault Unit :=
  if x + w ≤ s.width ∧ y + h ≤ s.height then .ok ()
  else .error (.blockOutside x y w h s.width s.height)

/-- Places the code point `cp` in column `x` of row `y`. -/
def put (s : Screen) (x y cp : Nat) : Except Fault Screen := do
  s.checkCell x y
  return s.paint [(s.index x y, s.ink cp)]

/-- The index of the `i`-th cell of a block `w` columns wide at `(x, y)`, row by row. -/
def blockIndex (s : Screen) (x y w i : Nat) : Nat :=
  s.index (x + i % w) (y + i / w)

/-- Places cells into a block, row by row, until either is exhausted. -/
def placeBlock (s : Screen) (x y w h : Nat) (cells : List Cell) : Screen :=
  s.paint ((cells.take (w * h)).mapIdx fun i c => (s.blockIndex x y w i, c))

/-- Places ready cells into a block. -/
def blit (s : Screen) (x y w h : Nat) (cells : List Cell) : Except Fault Screen := do
  s.checkBlock x y w h
  return s.placeBlock x y w h cells

/-- Writes code points into a block. -/
def writeBlock (s : Screen) (x y w h : Nat) (cps : List Nat) : Except Fault Screen := do
  s.checkBlock x y w h
  return s.placeBlock x y w h (cps.map s.ink)

/-- Writes bytes into a block, each as a code point, up to the first zero. -/
def writeBytes (s : Screen) (x y w h : Nat) (bytes : List UInt8) : Except Fault Screen :=
  s.writeBlock x y w h ((bytes.takeWhile (· ≠ 0)).map UInt8.toNat)

/-- Writes a text into one row, a character a cell. -/
def write (s : Screen) (x y : Nat) (text : String) : Except Fault Screen :=
  let cps := text.toList.map Char.toNat
  s.writeBlock x y cps.length 1 cps

/-- Fills a block with a code point. -/
def fill (s : Screen) (x y w h cp : Nat) : Except Fault Screen := do
  s.checkBlock x y w h
  return s.placeBlock x y w h (List.replicate (w * h) (s.ink cp))

/-- Whether the `i`-th cell of a block of `w` columns and `h` rows is on its border. -/
def onBorder (w h i : Nat) : Bool :=
  i % w = 0 || i % w = w - 1 || i / w = 0 || i / w = h - 1

/-- Draws the border of a block. -/
def rect (s : Screen) (x y w h cp : Nat) : Except Fault Screen := do
  s.checkBlock x y w h
  let border := (List.range (w * h)).filter (onBorder w h)
  return s.paint (border.map fun i => (s.blockIndex x y w i, s.ink cp))

/-- Draws a line between two cells, both included. -/
def line (s : Screen) (x₀ y₀ x₁ y₁ cp : Nat) : Except Fault Screen := do
  s.checkCell x₀ y₀
  s.checkCell x₁ y₁
  return s.paint ((Line.points x₀ y₀ x₁ y₁).map fun p => (s.index p.1 p.2, s.ink cp))

end RemoteScreen.Screen
