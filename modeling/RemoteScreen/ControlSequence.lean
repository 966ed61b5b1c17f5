import RemoteScreen.Cell
import RemoteScreen.Decimal

/-!
The control sequences that the screen sends: cursor moves, character attributes and colours (SGR),
clearing, and showing or hiding the cursor. Rows and columns count from zero here and from one on
the wire.
-/

namespace RemoteScreen.ControlSequence

/-- The bytes of an ASCII text. -/
def ascii (text : String) : List UInt8 :=
  text.toList.map fun c => UInt8.ofNat c.toNat

/-- Every sequence begins with ESC and an opening bracket. -/
def introducer : List UInt8 := [0x1B, 0x5B]

/-- Back to the peer's own attributes and colours. -/
def reset : List UInt8 := introducer ++ ascii "m"

/-- Clears the whole screen. -/
def clearScreen : List UInt8 := introducer ++ ascii "2J"

/-- Makes the cursor visible. -/
def showCursor : List UInt8 := introducer ++ ascii "?25h"

/-- Makes the cursor invisible. -/
def hideCursor : List UInt8 := introducer ++ ascii "?25l"

/-- Shows or hides the cursor. -/
def cursorVisible (visible : Bool) : List UInt8 :=
  if visible then showCursor else hideCursor

/-- The largest number a sequence holds. -/
def maxParameter : Nat := 0xFFFFFFFFFFFFFFFF

/-- Rows and columns as they are written, counted from one. -/
def ordinal (n : Nat) : Nat :=
  min (n + 1) maxParameter

/-- Moves the cursor. -/
def cursorPosition (row col : Nat) : List UInt8 :=
  introducer ++ Decimal.bytes (ordinal row) ++ ascii ";" ++ Decimal.bytes (ordinal col) ++ ascii "H"

/-- Bytes of the longest cursor move. -/
def maxCursorPositionLength : Nat := 44

/-- The SGR parameter that sets an attribute. -/
def attributeCode : Attribute → Nat
  | .bold => 1
  | .italic => 3
  | .underline => 4
  | .blink => 5

/-- The order in which attributes are sent. -/
def attributeOrder : List Attribute :=
  [.bold, .italic, .underline, .blink]

/-- SGR parameters, separated by semicolons. -/
def parameters (codes : List Nat) : List UInt8 :=
  (codes.map Decimal.bytes).intersperse (ascii ";") |>.flatten

/-- The parameters that take a peer in style `previous` to the style of `cell`. Attributes that
differ, or are not known, are reset and set again; the colours are always sent. -/
def styleCodes (previous : Option Cell) (cell : Cell) : List Nat :=
  let colors := [30 + cell.foreground.index, 40 + cell.background.index]
  if previous.any (·.attributesEq cell) then colors
  else 0 :: (attributeOrder.filter cell.has).map attributeCode ++ colors

/-- Sets attributes and colours. -/
def setStyle (previous : Option Cell) (cell : Cell) : List UInt8 :=
  introducer ++ parameters (styleCodes previous cell) ++ ascii "m"

/-- Bytes of the longest style sequence. -/
def maxStyleLength : Nat := 18

end RemoteScreen.ControlSequence
