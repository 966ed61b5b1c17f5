import Mathlib.Data.Nat.Bitwise
import RemoteScreen.Cell.Form
import RemoteScreen.Proofs.Cell

/-! Cells whose unused bit is clear. Such a cell is nothing but its seven fields, so two of them are
equal exactly if the fields are. All ways of making a cell lead to such cells, but for reading one
from JSON, which takes the packed word as it stands. -/

namespace RemoteScreen
namespace Cell

variable {c d : Cell}

/-- The bit that belongs to no field is clear. -/
def Canonical (c : Cell) : Prop :=
  c.bits &&& unusedMask = 0

instance (c : Cell) : Decidable c.Canonical :=
  inferInstanceAs (Decidable (_ = _))

/-! ### Fields -/

/-- Two cells agree in all that a cell is made of. -/
structure SameFields (c d : Cell) : Prop where
  codePoint : c.codePoint = d.codePoint
  foreground : c.foreground = d.foreground
  background : c.background = d.background
  has : ∀ a, c.has a = d.has a

/-- The place of an attribute's bit. -/
def bitOf : Attribute → Nat
  | .italic => 21
  | .underline => 22
  | .blink => 23
  | .bold => 30

theorem codePoint_eq_mod (c : Cell) : c.codePoint = c.bits.toNat % 2 ^ 21 := by
  have hmask : codePointMask.toNat = 2 ^ 21 - 1 := by decide
  rw [codePoint, UInt32.toNat_and, hmask, Nat.and_two_pow_sub_one_eq_mod]

theorem index_foreground (c : Cell) : c.foreground.index = c.bits.toNat / 2 ^ 24 % 8 := by
  have hshift : foregroundShift.toNat % 32 = 24 := by decide
  rw [foreground, Color.index_ofIndex, UInt32.toNat_shiftRight, hshift, Nat.shiftRight_eq_div_pow]

theorem index_background (c : Cell) : c.background.index = c.bits.toNat / 2 ^ 27 % 8 := by
  have hshift : backgroundShift.toNat % 32 = 27 := by decide
  rw [background, Color.index_ofIndex, UInt32.toNat_shiftRight, hshift, Nat.shiftRight_eq_div_pow]

theorem and_eq_zero_iff {b mask : UInt32} {i : Nat} (hmask : mask.toNat = 2 ^ i) :
    b &&& mask = 0 ↔ b.toNat / 2 ^ i % 2 = 0 := by
  rw [← UInt32.toNat_inj, UInt32.toNat_and, hmask, Nat.and_comm, Nat.two_pow_and,
    Nat.testBit_eq_decide_div_mod_eq]
  have hpos : 0 < 2 ^ i := Nat.two_pow_pos i
  rcases Nat.mod_two_eq_zero_or_one (b.toNat / 2 ^ i) with h | h
  · simp [h]
  · simp [h]

theorem has_eq_decide (c : Cell) (a : Attribute) :
    c.has a = decide (c.bits.toNat / 2 ^ bitOf a % 2 = 1) := by
  have hmask : a.mask.toNat = 2 ^ bitOf a := by cases a <;> decide
  simp only [has, ne_eq, and_eq_zero_iff hmask, Nat.mod_two_ne_zero]

theorem canonical_iff_lt (c : Cell) : c.Canonical ↔ c.bits.toNat < 2 ^ 31 := by
  have hword : c.bits.toNat < 2 ^ 32 := c.bits.toNat_lt
  rw [Canonical, and_eq_zero_iff (i := 31) (by decide)]
  omega

theorem SameFields.bit (h : SameFields c d) (a : Attribute) :
    c.bits.toNat / 2 ^ bitOf a % 2 = d.bits.toNat / 2 ^ bitOf a % 2 := by
  have hbit := h.has a
  rw [has_eq_decide, has_eq_decide, decide_eq_decide] at hbit
  omega

theorem SameFields.eq (h : SameFields c d) (hc : c.Canonical) (hd : d.Canonical) : c = d := by
  rw [canonical_iff_lt] at hc hd
  have hcode := h.codePoint
  have hforeground := congrArg Color.index h.foreground
  have hbackground := congrArg Color.index h.background
  rw [codePoint_eq_mod, codePoint_eq_mod] at hcode
  rw [index_foreground, index_foreground] at hforeground
  rw [index_background, index_background] at hbackground
  have hitalic := h.bit .italic
  have hunderline := h.bit .underline
  have hblink := h.bit .blink
  have hbold := h.bit .bold
  simp only [bitOf] at hitalic hunderline hblink hbold
  -- The fields take all bits below the unused one.
  have hbits : c.bits.toNat = d.bits.toNat := by omega
  exact congrArg Cell.mk (UInt32.toNat_inj.mp hbits)

theorem SameFields.refl (c : Cell) : SameFields c c :=
  ⟨rfl, rfl, rfl, fun _ => rfl⟩

theorem eq_iff_sameFields (hc : c.Canonical) (hd : d.Canonical) : c = d ↔ SameFields c d :=
  ⟨fun h => h ▸ .refl c, fun h => h.eq hc hd⟩

/-! ### Ways of making a cell -/

theorem canonical_style (c : Cell) : c.style.Canonical := by
  have hmask : styleMask &&& unusedMask = 0 := by decide
  rw [Canonical, style, UInt32.and_assoc, hmask, UInt32.and_zero]

theorem canonical_withCodePoint (c : Cell) (cp : Nat) : (c.withCodePoint cp).Canonical := by
  have hstyle : styleMask &&& unusedMask = 0 := by decide
  have hcode : codePointMask &&& unusedMask = 0 := by decide
  rw [Canonical, withCodePoint, bits_or_and, UInt32.and_assoc, UInt32.and_assoc, hstyle, hcode,
    UInt32.and_zero, UInt32.and_zero, UInt32.or_zero]

theorem canonical_ofBits (bits : UInt32) : (ofBits bits).Canonical := by
  have hmask : (styleMask ||| codePointMask) &&& unusedMask = 0 := by decide
  rw [Canonical, ofBits, UInt32.and_assoc, hmask, UInt32.and_zero]

theorem Canonical.replaceBits (h : c.Canonical) {mask value : UInt32}
    (hvalue : value &&& unusedMask = 0) : (c.replaceBits mask value).Canonical := by
  have hbits : c.bits &&& unusedMask = 0 := h
  rw [Canonical, Cell.replaceBits, bits_or_and, UInt32.and_assoc, UInt32.and_comm (~~~mask),
    ← UInt32.and_assoc, hbits, hvalue, UInt32.zero_and, UInt32.or_zero]

/-- The cells that the public ways of making one lead to, if of those read from JSON only those count
that satisfy `taken`. -/
inductive Made (taken : Cell → Prop) : Cell → Prop where
  | empty : Made taken .empty
  | ofCodePoint (cp : Nat) : Made taken (.ofCodePoint cp)
  | ofBits (bits : UInt32) : Made taken (.ofBits bits)
  | ofBytes (b₀ b₁ b₂ b₃ : UInt8) : Made taken (.ofBytes b₀ b₁ b₂ b₃)
  | ofJson {j : Json} {c : Cell} (hread : ofJson? j = some c) (htaken : taken c) : Made taken c
  | withCodePoint {c : Cell} (h : Made taken c) (cp : Nat) : Made taken (c.withCodePoint cp)
  | withForeground {c : Cell} (h : Made taken c) (color : Color) : Made taken (c.withForeground color)
  | withBackground {c : Cell} (h : Made taken c) (color : Color) : Made taken (c.withBackground color)
  | withAttribute {c : Cell} (h : Made taken c) (a : Attribute) (on : Bool) :
      Made taken (c.withAttribute a on)
  | style {c : Cell} (h : Made taken c) : Made taken c.style

theorem Made.canonical (h : Made Canonical c) : c.Canonical := by
  induction h with
  | empty => decide
  | ofCodePoint cp => exact canonical_withCodePoint _ cp
  | ofBits bits => exact canonical_ofBits bits
  | ofBytes => exact canonical_ofBits _
  | ofJson _ htaken => exact htaken
  | withCodePoint _ cp => exact canonical_withCodePoint _ cp
  | withForeground _ color ih => exact ih.replaceBits (by cases color <;> decide)
  | withBackground _ color ih => exact ih.replaceBits (by cases color <;> decide)
  | withAttribute _ a on ih => exact ih.replaceBits (by cases a <;> cases on <;> decide)
  | style => exact canonical_style _

end Cell
end RemoteScreen
