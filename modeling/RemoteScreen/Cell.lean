import RemoteScreen.Color

/-!
A cell of the screen, packed in one 32-bit word: bits 0 to 20 hold the code point, 21 italic,
22 underline, 23 blink, 24 to 26 the foreground, 27 to 29 the background and 30 bold. Bit 31
belongs to no field. Words enter through `Cell.ofBits`, which clears it.
-/

namespace RemoteScreen

/-- The ways in which a glyph can be set off, colours apart. -/
inductive Attribute where
  | bold | italic | underline | blink
  deriving DecidableEq, Inhabited

/-- The bit of a packed cell that holds an attribute. -/
def Attribute.mask : Attribute → UInt32
  | .italic => 0x00200000
  | .underline => 0x00400000
  | .blink => 0x00800000
  | .bold => 0x40000000

/-- A glyph with its colours and attributes, as one packed word. -/
structure Cell where
  bits : UInt32
  deriving DecidableEq, Inhabited

namespace Cell

/-- The bits of the code point. -/
def codePointMask : UInt32 := 0x001FFFFF

/-- All fields but the code point. -/
def styleMask : UInt32 := 0x7FE00000

/-- The bits of the four attributes. -/
def attributesMask : UInt32 := 0x40E00000

/-- The lowest of the three bits of the foreground. -/
def foregroundShift : UInt32 := 24

/-- The lowest of the three bits of the background. -/
def backgroundShift : UInt32 := 27

/-- Bytes that one packed cell takes. -/
def byteCount : Nat := 4

/-- Code point zero, black on black, no attribute. -/
def empty : Cell := ⟨0⟩

/-- The cell of a packed word, without its unused bit. -/
def ofBits (bits : UInt32) : Cell :=
  ⟨bits &&& (styleMask ||| codePointMask)⟩

/-- The number of the character that a cell shows, below 2^21. -/
def codePoint (c : Cell) : Nat :=
  (c.bits &&& codePointMask).toNat

/-- The style with code point `cp`, taken modulo 2^21. -/
def withCodePoint (c : Cell) (cp : Nat) : Cell :=
  ⟨(c.bits &&& styleMask) ||| (UInt32.ofNat cp &&& codePointMask)⟩

/-- A black cell that holds `cp`, taken modulo 2^21. -/
def ofCodePoint (cp : Nat) : Cell :=
  empty.withCodePoint cp

/-- The cell without its code point. -/
def style (c : Cell) : Cell :=
  ⟨c.bits &&& styleMask⟩

/-- The character of a cell, unless its code point is a surrogate or above U+10FFFF. -/
def char? (c : Cell) : Option Char :=
  if c.codePoint.isValidChar then some (Char.ofNat c.codePoint) else none

/-- The colour of the glyph. -/
def foreground (c : Cell) : Color :=
  Color.ofIndex (c.bits >>> foregroundShift).toNat

/-- The colour behind the glyph. -/
def background (c : Cell) : Color :=
  Color.ofIndex (c.bits >>> backgroundShift).toNat

/-- Whether attribute `a` is set. -/
def has (c : Cell) (a : Attribute) : Bool :=
  c.bits &&& a.mask ≠ 0

/-- Whether any attribute is set. -/
def hasAttributes (c : Cell) : Bool :=
  c.bits &&& attributesMask ≠ 0

/-- The bits under `mask` replaced by `value`. -/
def replaceBits (c : Cell) (mask value : UInt32) : Cell :=
  ⟨(c.bits &&& ~~~mask) ||| value⟩

/-- The cell with its glyph in another colour. -/
def withForeground (c : Cell) (color : Color) : Cell :=
  c.replaceBits (7 <<< foregroundShift) (UInt32.ofNat color.index <<< foregroundShift)

/-- The cell with another colour behind its glyph. -/
def withBackground (c : Cell) (color : Color) : Cell :=
  c.replaceBits (7 <<< backgroundShift) (UInt32.ofNat color.index <<< backgroundShift)

/-- The cell with attribute `a` set or cleared. -/
def withAttribute (c : Cell) (a : Attribute) (on : Bool) : Cell :=
  c.replaceBits a.mask (if on then a.mask else 0)

/-- Whether two cells agree in everything but the code point. -/
def styleEq (c d : Cell) : Bool :=
  c.bits &&& styleMask = d.bits &&& styleMask

/-- Whether two cells have the same attributes. -/
def attributesEq (c d : Cell) : Bool :=
  c.bits &&& attributesMask = d.bits &&& attributesMask

/-- White on black, the style of a screen that names no other. -/
def defaultStyle : Cell :=
  (empty.withForeground .white).withBackground .black

/-! ### Cells with another code point -/

theorem bits_and_or (a b c : UInt32) : a &&& (b ||| c) = a &&& b ||| a &&& c :=
  UInt32.toBitVec_inj.mp BitVec.and_or_distrib_left

theorem bits_or_and (a b c : UInt32) : (a ||| b) &&& c = a &&& c ||| b &&& c :=
  UInt32.toBitVec_inj.mp BitVec.and_or_distrib_right

@[simp] theorem codePoint_withCodePoint (c : Cell) (cp : Nat) :
    (c.withCodePoint cp).codePoint = cp % 0x200000 := by
  have hstyle : styleMask &&& codePointMask = 0 := by decide
  have hword : (c.withCodePoint cp).bits &&& codePointMask = UInt32.ofNat cp &&& codePointMask := by
    rw [withCodePoint, bits_or_and, UInt32.and_assoc, hstyle, UInt32.and_zero, UInt32.zero_or,
      UInt32.and_assoc, UInt32.and_self]
  have hmask : codePointMask.toNat = 2 ^ 21 - 1 := by decide
  rw [codePoint, hword, UInt32.toNat_and, hmask, Nat.and_two_pow_sub_one_eq_mod,
    UInt32.toNat_ofNat']
  exact Nat.mod_mod_of_dvd cp (by decide)

@[simp] theorem style_withCodePoint (c : Cell) (cp : Nat) :
    (c.withCodePoint cp).style = c.style := by
  have hcode : codePointMask &&& styleMask = 0 := by decide
  simp only [style, withCodePoint, bits_or_and, UInt32.and_assoc, UInt32.and_self, hcode,
    UInt32.and_zero, UInt32.or_zero]

/-! ### Bytes -/

/-- The packed word, least significant byte first. -/
def toBytes (c : Cell) : List UInt8 :=
  let n := c.bits.toNat
  [UInt8.ofNat n, UInt8.ofNat (n / 0x100), UInt8.ofNat (n / 0x10000), UInt8.ofNat (n / 0x1000000)]

/-- The cell whose packed word has the given bytes, least significant first. -/
def ofBytes (b₀ b₁ b₂ b₃ : UInt8) : Cell :=
  let n := b₀.toNat + b₁.toNat * 0x100 + b₂.toNat * 0x10000 + b₃.toNat * 0x1000000
  ofBits (UInt32.ofNat n)

end Cell
end RemoteScreen
