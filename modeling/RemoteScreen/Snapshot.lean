import RemoteScreen.Chunks
import RemoteScreen.Screen.Draw

/-!
Snapshots of what a screen should show. A snapshot is stored as packed cells or as JSON, and either
is accepted only if it has one cell for each place of its grid.
-/

namespace RemoteScreen

/-- The cells of a grid, with its size. -/
structure Snapshot where
  width : Nat
  height : Nat
  /-- The cells, row by row. -/
  cells : List Cell
  deriving DecidableEq, Inhabited

namespace Snapshot

/-- Why a stored snapshot is refused. -/
inductive LoadError where
  /-- The grid takes `expected` bytes, not `actual`. -/
  | lengthMismatch (expected actual : Nat)
  /-- The document is no JSON form of a snapshot. -/
  | malformed
  deriving DecidableEq

/-- The text of a refusal. -/
def LoadError.message : LoadError → String
  | lengthMismatch expected actual => s!"expected {expected} bytes for the grid, got {actual}"
  | malformed => "malformed JSON"

/-- The largest count of bytes. -/
def maxCount : Nat := 0xFFFFFFFFFFFFFFFF

/-- Bytes of a grid; a count that is too large stays at the largest one. -/
def gridBytes (width height : Nat) : Nat :=
  min (width * height * Cell.byteCount) maxCount

/-- What `screen` should show. -/
def capture (screen : Screen) : Snapshot :=
  ⟨screen.width, screen.height, screen.target.toList⟩

/-- The packed cells. -/
def toBytes (s : Snapshot) : List UInt8 :=
  s.cells.flatMap Cell.toBytes

/-- Takes packed cells apart; bytes that make no whole cell are left out. -/
def unpack : List UInt8 → List Cell
  | b₀ :: b₁ :: b₂ :: b₃ :: rest => .ofBytes b₀ b₁ b₂ b₃ :: unpack rest
  | _ => []

/-- The snapshot of a grid whose packed cells are given. -/
def ofBytes (width height : Nat) (bytes : List UInt8) : Except LoadError Snapshot :=
  let expected := gridBytes width height
  if bytes.length = expected then .ok ⟨width, height, unpack bytes⟩
  else .error (.lengthMismatch expected bytes.length)

/-- Accepts a snapshot that has a cell for each place of its grid. -/
def check (s : Snapshot) : Except LoadError Snapshot :=
  let expected := gridBytes s.width s.height
  let actual := min (s.cells.length * Cell.byteCount) maxCount
  if actual = expected then .ok s else .error (.lengthMismatch expected actual)

/-- Gives a screen the size and the cells of a snapshot. -/
def restore (s : Snapshot) (screen : Screen) : Except Fault Screen := do
  let screen ← screen.resize s.width s.height
  screen.blit 0 0 s.width s.height s.cells

/-- What stands for a code point that is no character. -/
def replacement : Char := '\uFFFD'

/-- The characters of a grid, each row ended by a line break. -/
def textOfRows (rows : List (List Cell)) : String :=
  String.ofList (rows.flatMap fun row => row.map (·.char?.getD replacement) ++ ['\n'])

/-- Whether the room that is set aside for the text of a grid can be addressed. -/
def TextAddressable (width height : Nat) : Prop :=
  width + 1 ≤ maxCount ∧ (width + 1) * height ≤ maxObjectBytes

instance (width height : Nat) : Decidable (TextAddressable width height) :=
  inferInstanceAs (Decidable (_ ∧ _))

/-- The characters of a snapshot, a line for each row. Room is set aside for one byte for each of them,
which can fail; that the text grows beyond it, for characters of more bytes, is taken to succeed. -/
def toText (s : Snapshot) : Except Fault String :=
  if TextAddressable s.width s.height then .ok (textOfRows (chunks s.width s.cells))
  else .error (.textTooLarge s.width s.height)

end Snapshot
end RemoteScreen
