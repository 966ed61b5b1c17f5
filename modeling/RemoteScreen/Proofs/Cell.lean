import RemoteScreen.Cell
import RemoteScreen.CodePoint

/-! The fields of a packed cell, which of them its style keeps, and the cells that are a style and
nothing else. -/

namespace RemoteScreen
namespace Cell

/-- Three bits of a word survive a mask that has all of them. -/
theorem toNat_and_shiftRight_mod {b mask shift : UInt32} (h : (mask >>> shift).toNat % 8 = 7) :
    ((b &&& mask) >>> shift).toNat % 8 = (b >>> shift).toNat % 8 := by
  rw [UInt32.toNat_shiftRight] at h
  rw [UInt32.toNat_shiftRight, UInt32.toNat_shiftRight, UInt32.toNat_and,
    Nat.shiftRight_and_distrib, Nat.and_mod_two_pow (n := 3), h]
  exact Nat.and_two_pow_sub_one_of_lt_two_pow (n := 3) (Nat.mod_lt _ (by decide))

theorem ofIndex_congr {m n : Nat} (h : m % 8 = n % 8) : Color.ofIndex m = Color.ofIndex n := by
  simp only [Color.ofIndex, h]

@[simp] theorem foreground_style (c : Cell) : c.style.foreground = c.foreground :=
  ofIndex_congr (toNat_and_shiftRight_mod (by decide))

@[simp] theorem background_style (c : Cell) : c.style.background = c.background :=
  ofIndex_congr (toNat_and_shiftRight_mod (by decide))

@[simp] theorem has_style (c : Cell) (a : Attribute) : c.style.has a = c.has a := by
  have hm : styleMask &&& a.mask = a.mask := by cases a <;> decide
  simp only [has, style, UInt32.and_assoc, hm]

theorem style_eq_of_styleEq {c d : Cell} (h : c.styleEq d = true) : c.style = d.style := by
  simpa [styleEq, style] using h

theorem has_eq_of_attributesEq {c d : Cell} (h : c.attributesEq d = true) (a : Attribute) :
    c.has a = d.has a := by
  have hm : attributesMask &&& a.mask = a.mask := by cases a <;> decide
  have hcd : c.bits &&& attributesMask = d.bits &&& attributesMask := by
    simpa [attributesEq] using h
  simp only [has]
  rw [← hm, ← UInt32.and_assoc, hcd, UInt32.and_assoc]

theorem codePoint_lt (c : Cell) : c.codePoint < CodePoint.limit := by
  have hle : c.codePoint ≤ codePointMask.toNat := by
    rw [codePoint, UInt32.toNat_and]
    exact Nat.and_le_right
  exact Nat.lt_of_le_of_lt hle (by decide)

/-! ### Styles -/

/-- The bit of a packed cell that holds no field. -/
def unusedMask : UInt32 := 0x80000000

/-- A cell is a style and nothing else. -/
def IsStyle (c : Cell) : Prop :=
  c.style = c

instance (c : Cell) : Decidable c.IsStyle :=
  inferInstanceAs (Decidable (_ = _))

theorem isStyle_style (c : Cell) : c.style.IsStyle := by
  simp only [IsStyle, style, UInt32.and_assoc, UInt32.and_self]

/-- A style has no code point, and its unused bit is clear. -/
theorem isStyle_iff (c : Cell) : c.IsStyle ↔ c.codePoint = 0 ∧ c.bits &&& unusedMask = 0 := by
  have hcode : c.codePoint = 0 ↔ c.bits &&& codePointMask = 0 :=
    UInt32.toNat_inj (b := 0)
  rw [hcode]
  constructor
  · intro h
    have hbits : c.bits &&& styleMask = c.bits := congrArg bits h
    rw [← hbits, UInt32.and_assoc, UInt32.and_assoc]
    exact ⟨UInt32.and_zero, UInt32.and_zero⟩
  · rintro ⟨hcode, hunused⟩
    have hall : c.bits = c.bits &&& (styleMask ||| codePointMask ||| unusedMask) :=
      (UInt32.and_neg_one (a := c.bits)).symm
    rw [bits_and_or, bits_and_or, hcode, hunused, UInt32.or_zero,
      UInt32.or_zero] at hall
    exact congrArg Cell.mk hall.symm

theorem IsStyle.replaceBits {c : Cell} (h : c.IsStyle) {mask value : UInt32}
    (hvalue : value &&& styleMask = value) : (c.replaceBits mask value).IsStyle := by
  have hbits : c.bits &&& styleMask = c.bits := congrArg bits h
  have hrest : (c.bits &&& ~~~mask) &&& styleMask = c.bits &&& ~~~mask := by
    rw [UInt32.and_assoc, UInt32.and_comm (~~~mask), ← UInt32.and_assoc, hbits]
  refine congrArg Cell.mk ?_
  rw [Cell.replaceBits, bits_or_and, hrest, hvalue]

theorem IsStyle.withAttribute {c : Cell} (h : c.IsStyle) (a : Attribute) (on : Bool) :
    (c.withAttribute a on).IsStyle :=
  h.replaceBits (by cases a <;> cases on <;> decide)

theorem IsStyle.withForeground {c : Cell} (h : c.IsStyle) (color : Color) :
    (c.withForeground color).IsStyle :=
  h.replaceBits (by cases color <;> decide)

theorem IsStyle.withBackground {c : Cell} (h : c.IsStyle) (color : Color) :
    (c.withBackground color).IsStyle :=
  h.replaceBits (by cases color <;> decide)

end Cell
end RemoteScreen
