import RemoteScreen.ByteQueue
import RemoteScreen.Cell

/-!
A grid of styled cells shown on a remote peer. The screen keeps the cells that the peer has been
sent and the cells that it should show; drawing changes the latter only, and what is sent later is
the difference. This module holds the state, its creation, resizing and the drawing style.
-/

namespace RemoteScreen

/-- Why a screen refuses a request. A refused request changes nothing. -/
inductive Fault where
  /-- The cell is not on the screen. -/
  | cellOutside (x y width height : Nat)
  /-- The block of `w` columns and `h` rows does not lie on the screen. -/
  | blockOutside (x y w h width height : Nat)
  /-- A grid of this size has more bytes than memory can address. An overflow of `width * height`
  is taken as this refusal, as in a build with overflow checks. -/
  | gridTooLarge (width height : Nat)
  /-- The bytes already in a buffer are more than it holds. -/
  | startOutside (start capacity : Nat)
  /-- A queue of this capacity has more bytes than memory can address. -/
  | queueTooLarge (capacity : Nat)
  /-- The text of a grid of this size has more bytes than memory can address. -/
  | textTooLarge (width height : Nat)
  deriving DecidableEq

/-- The text of a fault. -/
def Fault.message : Fault → String
  | cellOutside x y width height =>
    s!"cell ({x}, {y}) is outside the {width}x{height} canvas"
  | blockOutside x y w h width height =>
    s!"block {w}x{h} at ({x}, {y}) does not fit the {width}x{height} canvas"
  | gridTooLarge width height => s!"a {width}x{height} canvas is too large"
  | startOutside start capacity => s!"{start} bytes do not fit a buffer of {capacity}"
  | queueTooLarge capacity => s!"a queue of {capacity} bytes is too large"
  | textTooLarge width height => s!"the text of a {width}x{height} canvas is too large"

/-- The most bytes that one object in memory can have. -/
def maxObjectBytes : Nat := 0x7FFFFFFFFFFFFFFF

/-- What is known of the peer. -/
structure Peer where
  /-- The style in which the peer draws. -/
  style : Option Cell := none
  /-- Index of the cell that was sent last; the peer's cursor stands behind it. -/
  last : Option Nat := none
  deriving DecidableEq, Inhabited

/-- Nothing is known, as when others have written to the peer. -/
def Peer.unknown : Peer := {}

/-- What a peer shows and what it should show, and how far the running pass has come. -/
structure Screen where
  width : Nat
  height : Nat
  /-- What the peer has been sent, row by row. -/
  shown : Array Cell
  /-- What the peer should show, row by row. -/
  target : Array Cell
  /-- The style of drawing; its code point is zero. -/
  style : Cell
  /-- The style of blank cells in a new or resized grid. -/
  defaultStyle : Cell
  /-- Index of the cell that the running pass looks at next. -/
  position : Nat
  peer : Peer
  /-- Every pass sends every cell. -/
  repaintAlways : Bool
  /-- The running pass sends every cell. -/
  repaintOnce : Bool
  /-- The rest of a cell that a buffer has split. -/
  tail : ByteQueue
  deriving DecidableEq, Inhabited

namespace Screen

/-- A space in the given style. -/
def blank (style : Cell) : Cell :=
  style.withCodePoint 0x20

@[simp] theorem codePoint_blank (style : Cell) : (blank style).codePoint = 0x20 :=
  Cell.codePoint_withCodePoint style 0x20

@[simp] theorem style_blank (style : Cell) : (blank style).style = style.style :=
  Cell.style_withCodePoint style 0x20

/-- Whether a grid of this size can be addressed. -/
def Addressable (width height : Nat) : Prop :=
  width * height * Cell.byteCount ≤ maxObjectBytes

instance (width height : Nat) : Decidable (Addressable width height) :=
  inferInstanceAs (Decidable (_ ≤ _))

/-- A blank screen. Its first pass sends every cell. -/
def create (width height : Nat) (style : Cell) : Except Fault Screen :=
  if Addressable width height then
    let grid := Array.replicate (width * height) (blank style.style)
    .ok {
      width, height
      shown := grid
      target := grid
      style := style.style
      defaultStyle := style.style
      position := 0
      peer := .unknown
      repaintAlways := false
      repaintOnce := true
      tail := .empty
    }
  else .error (.gridTooLarge width height)

/-- The index of column `x` of row `y` in a grid. -/
def index (s : Screen) (x y : Nat) : Nat :=
  x + y * s.width

/-- Whether the cell in column `x` of row `y` is on the screen. -/
def Contains (s : Screen) (x y : Nat) : Prop :=
  x < s.width ∧ y < s.height

instance (s : Screen) (x y : Nat) : Decidable (s.Contains x y) :=
  inferInstanceAs (Decidable (_ ∧ _))

/-- The cell that should show in column `x` of row `y`, if it is on the screen. -/
def get? (s : Screen) (x y : Nat) : Option Cell :=
  if s.Contains x y then s.target[s.index x y]? else none

/-- The cell that should show in column `x` of row `y`. -/
def cell (s : Screen) (x y : Nat) : Except Fault Cell :=
  match s.get? x y with
  | some c => .ok c
  | none => .error (.cellOutside x y s.width s.height)

/-- Whether no cell differs from what has been sent, and none is split. The cells that a repaint has
yet to reach do not count. -/
def isClean (s : Screen) : Bool :=
  s.shown = s.target ∧ s.tail.isDrained

theorem isClean_iff (s : Screen) :
    s.isClean = true ↔ s.shown = s.target ∧ s.tail.pending = [] := by
  simp [isClean, ByteQueue.isDrained_iff]

/-- Forgets the peer's cursor and style, which others have changed: the next cell is sent with
both. -/
def forgetPeer (s : Screen) : Screen :=
  { s with peer := .unknown }

/-- Starts a pass that sends every cell. -/
def requestRepaint (s : Screen) : Screen :=
  { s with repaintOnce := true, position := 0 }

/-- Sends every cell in every pass, as long as `on`. -/
def setRepaintAlways (s : Screen) (on : Bool) : Screen :=
  { s with repaintAlways := on }

/-- The screen in another, addressable size. Cells that lie in both grids stay, the others become
blank in the default style, and the next pass sends all of them. -/
def reshape (s : Screen) (width height : Nat) : Screen :=
  if s.width = width ∧ s.height = height then s
  else
    let resized := { s with
      width, height
      shown := Array.replicate (width * height) (blank s.defaultStyle)
      target := Array.ofFn fun i : Fin (width * height) =>
        (s.get? (i % width) (i / width)).getD (blank s.defaultStyle) }
    resized.forgetPeer.requestRepaint

/-- Changes the size, unless it is too large. An overflow of `width * height` is taken as a refusal
too, as in a build with overflow checks. -/
def resize (s : Screen) (width height : Nat) : Except Fault Screen :=
  if (s.width = width ∧ s.height = height) ∨ Addressable width height then
    .ok (s.reshape width height)
  else .error (.gridTooLarge width height)

/-- Makes every cell that should show blank in the drawing style. -/
def erase (s : Screen) : Screen :=
  { s with target := Array.replicate s.target.size (blank s.style) }

/-- Draws in the style of a cell from now on. -/
def setStyle (s : Screen) (style : Cell) : Screen :=
  { s with style := style.style }

/-- Draws in the default style from now on. -/
def resetStyle (s : Screen) : Screen :=
  { s with style := s.defaultStyle }

/-- Draws with attribute `a`, or without it, from now on. -/
def setAttribute (s : Screen) (a : Attribute) (on : Bool) : Screen :=
  { s with style := s.style.withAttribute a on }

/-- Draws glyphs of another colour from now on. -/
def setForeground (s : Screen) (color : Color) : Screen :=
  { s with style := s.style.withForeground color }

/-- Draws on another colour from now on. -/
def setBackground (s : Screen) (color : Color) : Screen :=
  { s with style := s.style.withBackground color }

end Screen
end RemoteScreen
