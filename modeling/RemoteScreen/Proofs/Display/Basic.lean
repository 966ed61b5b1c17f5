import RemoteScreen.Proofs.Cell

/-! An ideal display, the far end of a connection: an unbounded grid of styled glyphs, a cursor and
a pen, fed with one byte at a time. It knows cursor moves (CUP), the attributes and colours that a
screen uses (SGR), the clearing of the whole grid, UTF-8 in up to four bytes, and the three-byte
commands of option negotiation, which it skips. Everything else it reads and ignores. -/

namespace RemoteScreen

/-- How a glyph looks. -/
structure Style where
  foreground : Color
  background : Color
  attributes : Attribute → Bool

namespace Style

/-- How the glyph of a cell looks. -/
def ofCell (c : Cell) : Style :=
  ⟨c.foreground, c.background, c.has⟩

/-- The style with one more attribute. -/
def set (s : Style) (a : Attribute) : Style :=
  { s with attributes := fun b => b = a || s.attributes b }

theorem ofCell_style (c : Cell) : ofCell c.style = ofCell c := by
  simp only [ofCell, Cell.foreground_style, Cell.background_style, Style.mk.injEq, true_and]
  funext a
  exact c.has_style a

end Style

/-- What stands in one place of a display. -/
structure Glyph where
  codePoint : Nat
  style : Style

/-- What a cell looks like on a display. -/
def Glyph.ofCell (c : Cell) : Glyph :=
  ⟨c.codePoint, .ofCell c⟩

namespace Display

/-- What a display has read of a sequence that is not complete. -/
inductive Mode where
  | ground
  /-- After ESC. -/
  | escape
  /-- In the parameters of a control sequence: those before the last semicolon, and the last one,
  each unless it is empty. -/
  | parameters (isPrivate : Bool) (before : List (Option Nat)) (last : Option Nat)
  /-- In a code point of which `missing` bytes are to come. -/
  | character (value missing : Nat)
  /-- After IAC. -/
  | command
  /-- After IAC and a verb. -/
  | option

end Display

/-- What a display shows, where and how it draws next, and what it has read of a sequence. -/
structure Display where
  /-- What stands in a column of a row. -/
  grid : Nat → Nat → Glyph
  column : Nat
  row : Nat
  pen : Style
  mode : Display.Mode := .ground
  /-- The colours to which a reset returns. -/
  plain : Color × Color
  /-- What stands everywhere after a clearing with a given pen. -/
  cleared : Style → Glyph

namespace Display

/-- Whether a code point has a glyph. -/
def Printable (cp : Nat) : Prop :=
  0x20 ≤ cp ∧ cp ≠ 0x7F

instance (cp : Nat) : Decidable (Printable cp) :=
  inferInstanceAs (Decidable (_ ∧ _))

/-- The pen after a reset. -/
def plainPen (d : Display) : Style :=
  ⟨d.plain.1, d.plain.2, fun _ => false⟩

/-- Puts a glyph at the cursor, which moves on by one column. -/
def put (d : Display) (cp : Nat) : Display :=
  if Printable cp then
    { d with
      grid := fun x y => if x = d.column ∧ y = d.row then ⟨cp, d.pen⟩ else d.grid x y
      column := d.column + 1 }
  else d

/-- The pen after one SGR parameter. -/
def select (d : Display) (pen : Style) (code : Nat) : Style :=
  if code = 0 then d.plainPen
  else if code = 1 then pen.set .bold
  else if code = 3 then pen.set .italic
  else if code = 4 then pen.set .underline
  else if code = 5 then pen.set .blink
  else if 30 ≤ code ∧ code ≤ 37 then { pen with foreground := .ofIndex (code - 30) }
  else if 40 ≤ code ∧ code ≤ 47 then { pen with background := .ofIndex (code - 40) }
  else pen

/-- What a control sequence does that ends in the byte `final`. -/
def execute (d : Display) (final : Nat) (parameters : List (Option Nat)) : Display :=
  if final = 0x48 then -- H
    { d with
      row := (parameters[0]?.join.getD 1) - 1
      column := (parameters[1]?.join.getD 1) - 1
      mode := .ground }
  else if final = 0x6D then -- m
    { d with pen := (parameters.map (·.getD 0)).foldl d.select d.pen, mode := .ground }
  else if final = 0x4A ∧ parameters = [some 2] then -- J
    { d with grid := fun _ _ => d.cleared d.pen, mode := .ground }
  else { d with mode := .ground }

/-- A byte outside every sequence. -/
def readGround (d : Display) (n : Nat) : Display :=
  if n = 0x1B then { d with mode := .escape }
  else if n = 0xFF then { d with mode := .command }
  else if n < 0x80 then d.put n
  else if n < 0xC0 then d
  else if n < 0xE0 then { d with mode := .character (n % 0x20) 1 }
  else if n < 0xF0 then { d with mode := .character (n % 0x10) 2 }
  else if n < 0xF8 then { d with mode := .character (n % 0x08) 3 }
  else d

/-- A byte of a control sequence. -/
def readParameter (d : Display) (isPrivate : Bool) (before : List (Option Nat)) (last : Option Nat)
    (n : Nat) : Display :=
  if 0x30 ≤ n ∧ n ≤ 0x39 then
    { d with mode := .parameters isPrivate before (some (10 * last.getD 0 + (n - 0x30))) }
  else if n = 0x3B then { d with mode := .parameters isPrivate (before ++ [last]) none }
  else if n = 0x3F then { d with mode := .parameters true before last }
  else if isPrivate then { d with mode := .ground }
  else d.execute n (before ++ [last])

/-- A byte of a code point; one that does not continue it drops what has been read. -/
def readCharacter (d : Display) (value missing n : Nat) : Display :=
  if 0x80 ≤ n ∧ n < 0xC0 then
    let value := value * 0x40 + n % 0x40
    if missing ≤ 1 then { d.put value with mode := .ground }
    else { d with mode := .character value (missing - 1) }
  else { d with mode := .ground }

/-- The display after it has read one byte. -/
def step (d : Display) (b : UInt8) : Display :=
  match d.mode with
  | .ground => d.readGround b.toNat
  | .escape => { d with mode := if b = 0x5B then .parameters false [] none else .ground }
  | .parameters isPrivate before last => d.readParameter isPrivate before last b.toNat
  | .character value missing => d.readCharacter value missing b.toNat
  | .command => { d with mode := .option }
  | .option => { d with mode := .ground }

/-- The display after it has read some bytes. -/
def read (d : Display) (bytes : List UInt8) : Display :=
  bytes.foldl step d

@[simp] theorem read_nil (d : Display) : d.read [] = d := rfl

@[simp] theorem read_cons (d : Display) (b : UInt8) (bytes : List UInt8) :
    d.read (b :: bytes) = (d.step b).read bytes := rfl

theorem read_append (d : Display) (a b : List UInt8) : d.read (a ++ b) = (d.read a).read b :=
  List.foldl_append

end Display
end RemoteScreen
