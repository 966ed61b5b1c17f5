import RemoteScreen.Proofs.Snapshot.Packed

/-! A cell as a record of seven fields. A field takes a slice of the packed word (`Field.slice`), and a
change keeps some bits of the word and places others (`bits_change`). What it keeps is all of every
slice but that of its own field, where it places what it sets (`slice_change`). So each field holds
what it was set to last, and changes of different fields commute. -/

namespace RemoteScreen
namespace Cell

variable {c d : Cell}

/-! ### Fields and changes -/

/-- The fields of a cell; each attribute is one. -/
inductive Field where
  | codePoint
  | foreground
  | background
  | flag (a : Attribute)
  deriving DecidableEq

/-- What a field holds. -/
abbrev Field.Value : Field → Type
  | codePoint => Nat
  | foreground => Color
  | background => Color
  | flag _ => Bool

/-- What a field of the cell holds. -/
def get (c : Cell) : (f : Field) → f.Value
  | .codePoint => c.codePoint
  | .foreground => c.foreground
  | .background => c.background
  | .flag a => c.has a

/-- What is done to a cell by setting one of its fields. -/
inductive Change where
  | codePoint (cp : Nat)
  | foreground (color : Color)
  | background (color : Color)
  | flag (a : Attribute) (on : Bool)
  /-- Takes the code point away. -/
  | style
  deriving DecidableEq

namespace Change

/-- The field that a change sets. -/
def field : Change → Field
  | codePoint _ => .codePoint
  | foreground _ => .foreground
  | background _ => .background
  | flag a _ => .flag a
  | style => .codePoint

/-- What a change sets its field to; of a code point it takes 21 bits. -/
def value : (k : Change) → k.field.Value
  | codePoint cp => (cp % 2 ^ 21 : Nat)
  | foreground color => color
  | background color => color
  | flag _ on => on
  | style => (0 : Nat)

/-- What a change sets a given field to, if it sets that one. -/
def sets (k : Change) (f : Field) : Option f.Value :=
  if h : k.field = f then some (h ▸ k.value) else none

theorem sets_field (k : Change) : k.sets k.field = some k.value :=
  dif_pos rfl

theorem sets_of_ne {k : Change} {f : Field} (h : k.field ≠ f) : k.sets f = none :=
  dif_neg h

end Change

/-- The cell after a change. -/
def change (c : Cell) : Change → Cell
  | .codePoint cp => c.withCodePoint cp
  | .foreground color => c.withForeground color
  | .background color => c.withBackground color
  | .flag a on => c.withAttribute a on
  | .style => c.style

/-- The cell after some changes, one after another. -/
def changeAll (c : Cell) (ks : List Change) : Cell :=
  ks.foldl change c

/-! ### Slices of the packed word -/

namespace Field

/-- The lowest bit of a field. -/
def low : Field → Nat
  | codePoint => 0
  | foreground => 24
  | background => 27
  | flag a => bitOf a

/-- How many bits a field has. -/
def size : Field → Nat
  | codePoint => 21
  | foreground => 3
  | background => 3
  | flag _ => 1

/-- The bits of a field, as a number. -/
def slice (f : Field) (w : UInt32) : Nat :=
  (w.toNat >>> f.low) % 2 ^ f.size

/-- What the bits of a field stand for. -/
def decode : (f : Field) → Nat → f.Value
  | codePoint, n => n
  | foreground, n => Color.ofIndex n
  | background, n => Color.ofIndex n
  | flag _, n => decide (n = 1)

theorem slice_and (f : Field) (v w : UInt32) : f.slice (v &&& w) = f.slice v &&& f.slice w := by
  rw [slice, UInt32.toNat_and, Nat.shiftRight_and_distrib, Nat.and_mod_two_pow]
  rfl

theorem slice_or (f : Field) (v w : UInt32) : f.slice (v ||| w) = f.slice v ||| f.slice w := by
  rw [slice, UInt32.toNat_or, Nat.shiftRight_or_distrib, Nat.or_mod_two_pow]
  rfl

theorem slice_lt (f : Field) (w : UInt32) : f.slice w < 2 ^ f.size :=
  Nat.mod_lt _ (Nat.two_pow_pos _)

theorem slice_and_ones (f : Field) (w : UInt32) : f.slice w &&& (2 ^ f.size - 1) = f.slice w :=
  Nat.and_two_pow_sub_one_of_lt_two_pow (f.slice_lt w)

/-- The bits that a change of a field keeps. That of a code point keeps the style only, so it clears
the unused bit as well. -/
def kept : Field → UInt32
  | codePoint => styleMask
  | foreground => ~~~(7 <<< foregroundShift)
  | background => ~~~(7 <<< backgroundShift)
  | flag a => ~~~a.mask

/-- A change of one field keeps all bits of every other one. -/
theorem slice_kept (f g : Field) : g.slice f.kept = if f = g then 0 else 2 ^ g.size - 1 := by
  cases f with
  | flag a => cases a <;> cases g with
    | flag b => cases b <;> decide
    | _ => decide
  | _ => cases g with
    | flag b => cases b <;> decide
    | _ => decide

end Field

theorem get_eq (c : Cell) (f : Field) : c.get f = f.decode (f.slice c.bits) := by
  cases f with
  | codePoint => exact c.codePoint_eq_mod
  | foreground =>
    refine (Color.ofIndex_index c.foreground).symm.trans (congrArg Color.ofIndex ?_)
    rw [index_foreground, Field.slice, Nat.shiftRight_eq_div_pow]
    rfl
  | background =>
    refine (Color.ofIndex_index c.background).symm.trans (congrArg Color.ofIndex ?_)
    rw [index_background, Field.slice, Nat.shiftRight_eq_div_pow]
    rfl
  | flag a =>
    refine (c.has_eq_decide a).trans ?_
    rw [Field.slice, Nat.shiftRight_eq_div_pow]
    rfl

/-! ### What a change does to the word -/

namespace Change

/-- The bits that a change places. -/
def placed : Change → UInt32
  | codePoint cp => UInt32.ofNat cp &&& codePointMask
  | foreground color => UInt32.ofNat color.index <<< foregroundShift
  | background color => UInt32.ofNat color.index <<< backgroundShift
  | flag a on => if on then a.mask else 0
  | style => 0

/-- The number that a change places in its field. -/
def code : Change → Nat
  | codePoint cp => cp % 2 ^ 21
  | foreground color => color.index
  | background color => color.index
  | flag _ on => if on then 1 else 0
  | style => 0

theorem decode_code (k : Change) : k.field.decode k.code = k.value := by
  cases k with
  | codePoint cp => rfl
  | foreground color => exact Color.ofIndex_index color
  | background color => exact Color.ofIndex_index color
  | flag a on => cases on <;> rfl
  | style => rfl

/-- A change places bits in its own field only. -/
theorem slice_placed (k : Change) (f : Field) :
    f.slice k.placed = if k.field = f then k.code else 0 := by
  cases k with
  | codePoint cp =>
    have hmask : f.slice codePointMask = if f = .codePoint then 2 ^ f.size - 1 else 0 := by
      cases f with
      | flag a => cases a <;> decide
      | _ => decide
    rw [placed, Field.slice_and, hmask]
    by_cases hf : f = .codePoint
    · subst hf
      have hlow : Field.slice .codePoint (UInt32.ofNat cp) = cp % 2 ^ 21 := by
        simp only [Field.slice, Field.low, Field.size, UInt32.toNat_ofNat', Nat.shiftRight_zero]
        omega
      rw [if_pos rfl, Field.slice_and_ones, hlow]
      exact (if_pos rfl).symm
    · rw [if_neg hf, Nat.and_zero]
      exact (if_neg fun h : Field.codePoint = f => hf h.symm).symm
  | foreground color => cases color <;> cases f with
    | flag a => cases a <;> decide
    | _ => decide
  | background color => cases color <;> cases f with
    | flag a => cases a <;> decide
    | _ => decide
  | flag b on => cases b <;> cases on <;> cases f with
    | flag a => cases a <;> decide
    | _ => decide
  | style => cases f with
    | flag a => cases a <;> decide
    | _ => decide

/-- What a change places is kept by the changes of all other fields. -/
theorem placed_and_kept {k : Change} {f : Field} (h : k.field ≠ f) :
    k.placed &&& f.kept = k.placed := by
  cases k with
  | codePoint cp =>
    have hmask : codePointMask &&& f.kept = codePointMask := by
      cases f with
      | codePoint => exact absurd rfl h
      | flag a => cases a <;> decide
      | _ => decide
    rw [placed, UInt32.and_assoc, hmask]
  | foreground color => cases color <;> cases f with
    | flag a => cases a <;> decide
    | foreground => exact absurd rfl h
    | _ => decide
  | background color => cases color <;> cases f with
    | flag a => cases a <;> decide
    | background => exact absurd rfl h
    | _ => decide
  | flag b on => cases b <;> cases on <;> cases f with
    | flag a => cases a <;> first | decide | exact absurd rfl h
    | _ => decide
  | style => exact UInt32.zero_and

end Change

theorem bits_change (c : Cell) (k : Change) :
    (c.change k).bits = c.bits &&& k.field.kept ||| k.placed := by
  cases k with
  | style => exact UInt32.or_zero.symm
  | _ => rfl

theorem slice_change (c : Cell) (k : Change) (f : Field) :
    f.slice (c.change k).bits = if k.field = f then k.code else f.slice c.bits := by
  rw [bits_change, Field.slice_or, Field.slice_and, Field.slice_kept, Change.slice_placed]
  split
  next => rw [Nat.and_zero, Nat.zero_or]
  next => rw [Field.slice_and_ones, Nat.or_zero]

theorem get_change (c : Cell) (k : Change) (f : Field) :
    (c.change k).get f = (k.sets f).getD (c.get f) := by
  rw [get_eq, slice_change]
  by_cases h : k.field = f
  · subst h
    rw [if_pos rfl, k.sets_field, Option.getD_some]
    exact k.decode_code
  · rw [if_neg h, Change.sets_of_ne h, Option.getD_none, get_eq]

/-- A field holds what some changes set it to last. -/
theorem get_changeAll (c : Cell) (ks : List Change) (f : Field) :
    (c.changeAll ks).get f = (ks.filterMap (·.sets f)).getLast?.getD (c.get f) := by
  induction ks generalizing c with
  | nil => rfl
  | cons k ks ih =>
    show ((c.change k).changeAll ks).get f = _
    rw [ih, get_change, List.filterMap_cons]
    cases k.sets f with
    | none => rfl
    | some v => rw [List.getLast?_cons, Option.getD_some, Option.getD_some]

/-- Each of two changes keeps what the other one places. -/
theorem change_comm (c : Cell) {j k : Change} (h : j.field ≠ k.field) :
    (c.change j).change k = (c.change k).change j := by
  have hbits : ((c.change j).change k).bits = ((c.change k).change j).bits := by
    simp only [bits_change, bits_or_and, Change.placed_and_kept h, Change.placed_and_kept h.symm]
    rw [UInt32.and_assoc, UInt32.and_comm j.field.kept, ← UInt32.and_assoc, UInt32.or_assoc,
      UInt32.or_comm j.placed, ← UInt32.or_assoc]
  exact congrArg Cell.mk hbits

/-! ### Comparisons -/

theorem sameFields_iff : c.SameFields d ↔ ∀ f, c.get f = d.get f := by
  constructor
  · intro h f
    cases f with
    | codePoint => exact h.codePoint
    | foreground => exact h.foreground
    | background => exact h.background
    | flag a => exact h.has a
  · intro h
    exact ⟨h .codePoint, h .foreground, h .background, fun a => h (.flag a)⟩

theorem get_style (c : Cell) {f : Field} (hf : f ≠ .codePoint) : c.style.get f = c.get f := by
  have hsets : Change.sets .style f = none := Change.sets_of_ne hf.symm
  rw [show c.style = c.change .style from rfl, get_change, hsets, Option.getD_none]

theorem styleEq_iff : c.styleEq d = true ↔ ∀ f, f ≠ .codePoint → c.get f = d.get f := by
  have hstyle : c.styleEq d = true ↔ c.style = d.style := by simp [styleEq, style]
  rw [hstyle]
  constructor
  · intro h f hf
    rw [← get_style c hf, ← get_style d hf, h]
  · intro h
    have hfields : ∀ f, c.style.get f = d.style.get f := by
      intro f
      by_cases hf : f = .codePoint
      · subst hf
        exact ((isStyle_iff _).mp c.isStyle_style).1.trans ((isStyle_iff _).mp d.isStyle_style).1.symm
      · rw [get_style c hf, get_style d hf, h f hf]
    exact (sameFields_iff.mpr hfields).eq c.canonical_style d.canonical_style

theorem bits_and_mask (c : Cell) (a : Attribute) :
    c.bits &&& a.mask = if c.has a then a.mask else 0 := by
  have hmask : a.mask.toNat = 2 ^ bitOf a := by cases a <;> decide
  rw [← UInt32.toNat_inj, UInt32.toNat_and, hmask, Nat.and_two_pow, Nat.testBit_eq_decide_div_mod_eq,
    ← c.has_eq_decide a]
  cases c.has a with
  | true => simp [hmask]
  | false => simp

theorem bits_and_attributesMask (c : Cell) : c.bits &&& attributesMask =
    c.bits &&& Attribute.bold.mask ||| c.bits &&& Attribute.italic.mask |||
      c.bits &&& Attribute.underline.mask ||| c.bits &&& Attribute.blink.mask := by
  have hmask : attributesMask = Attribute.bold.mask ||| Attribute.italic.mask |||
      Attribute.underline.mask ||| Attribute.blink.mask := by decide
  rw [hmask, bits_and_or, bits_and_or, bits_and_or]

theorem attributesEq_iff : c.attributesEq d = true ↔ ∀ a, c.has a = d.has a := by
  refine ⟨has_eq_of_attributesEq, fun h => ?_⟩
  rw [attributesEq, decide_eq_true_eq, bits_and_attributesMask, bits_and_attributesMask]
  simp only [bits_and_mask, h]

theorem hasAttributes_iff : c.hasAttributes = true ↔ ∃ a, c.has a = true := by
  rw [hasAttributes, decide_eq_true_eq, bits_and_attributesMask]
  constructor
  · intro hne
    refine Classical.byContradiction fun hnone => hne ?_
    have hclear : ∀ a, c.has a = false := fun a => Bool.eq_false_iff.mpr fun ha => hnone ⟨a, ha⟩
    simp only [bits_and_mask, hclear]
    rfl
  · rintro ⟨a, ha⟩ hzero
    simp only [UInt32.or_eq_zero_iff] at hzero
    obtain ⟨⟨⟨hbold, hitalic⟩, hunderline⟩, hblink⟩ := hzero
    rw [has, decide_eq_true_eq] at ha
    cases a with
    | bold => exact ha hbold
    | italic => exact ha hitalic
    | underline => exact ha hunderline
    | blink => exact ha hblink

/-! ### The record -/

/-- The cell is that of a packed word, or of its bytes. -/
inductive Unpacked : Cell → Prop where
  | ofBits (bits : UInt32) : Unpacked (ofBits bits)
  | ofBytes (b₀ b₁ b₂ b₃ : UInt8) : Unpacked (ofBytes b₀ b₁ b₂ b₃)

theorem Unpacked.canonical (h : Unpacked c) : c.Canonical := by
  cases h with
  | ofBits => exact canonical_ofBits _
  | ofBytes => exact canonical_ofBits _

/-- Whatever the word of a cell, its unused bit included, and whatever changes are made, each field
holds what it was set to last, or what it held before if it was not set. Changes of different fields
commute. Two cells have the same style exactly if all fields but the code point agree, and the same
attributes exactly if the four flags do; a cell has attributes exactly if one of them is set. Cells
that were unpacked are equal exactly if all fields agree, and packing them is undone by unpacking. -/
theorem record_of_fields :
    (∀ (word : UInt32) (ks : List Change) (f : Field), ((⟨word⟩ : Cell).changeAll ks).get f =
      (ks.filterMap (·.sets f)).getLast?.getD ((⟨word⟩ : Cell).get f)) ∧
    (∀ (c : Cell) (j k : Change), j.field ≠ k.field →
      (c.change j).change k = (c.change k).change j) ∧
    (∀ c d : Cell, (c.styleEq d = true ↔ ∀ f, f ≠ .codePoint → c.get f = d.get f) ∧
      (c.attributesEq d = true ↔ ∀ a, c.has a = d.has a) ∧
      (c.hasAttributes = true ↔ ∃ a, c.has a = true)) ∧
    ∀ c, Unpacked c → (∀ d, Unpacked d → (c = d ↔ ∀ f, c.get f = d.get f)) ∧
      ∃ b₀ b₁ b₂ b₃, c.toBytes = [b₀, b₁, b₂, b₃] ∧ ofBytes b₀ b₁ b₂ b₃ = c := by
  refine ⟨fun word => get_changeAll ⟨word⟩, fun c j k => c.change_comm,
    fun c d => ⟨styleEq_iff, attributesEq_iff, hasAttributes_iff⟩, fun c hc => ⟨fun d hd => ?_, ?_⟩⟩
  · rw [eq_iff_sameFields hc.canonical hd.canonical, sameFields_iff]
  · exact hc.canonical.ofBytes_toBytes

/-- Some changes of a word whose bits are all ones: fields are set twice, to values whose bits are all
ones or all zeros, and the first code point has more than 21 bits. -/
def overwriting : List Change :=
  [.codePoint 0xFFFFFFFF, .flag .bold false, .foreground .green, .flag .italic false, .style,
    .foreground .white, .flag .bold true, .background .black]

theorem record_of_overwritten :
    let c : Cell := ⟨0xFFFFFFFF⟩
    let j : Change := .flag .italic false
    let k : Change := .codePoint 0xFFE00041
    let d := ofBits 0x87000041
    (c.changeAll overwriting).get .codePoint = (0 : Nat) ∧
    (c.changeAll overwriting).get .foreground = Color.white ∧
    (c.changeAll overwriting).get .background = Color.black ∧
    (c.changeAll overwriting).get (.flag .bold) = true ∧
    (c.changeAll overwriting).get (.flag .italic) = false ∧
    (c.changeAll overwriting).get (.flag .blink) = true ∧
    j.field ≠ k.field ∧ (c.change j).change k = (c.change k).change j ∧
    Unpacked d ∧ Unpacked (ofBytes 0x41 0 0 0x07) ∧ d = ofBytes 0x41 0 0 0x07 ∧
    ∃ b₀ b₁ b₂ b₃, d.toBytes = [b₀, b₁, b₂, b₃] ∧ ofBytes b₀ b₁ b₂ b₃ = d := by
  intro c j k d
  obtain ⟨hlast, hcommute, -, hunpacked⟩ := record_of_fields
  have hfields : j.field ≠ k.field := by decide
  obtain ⟨hequal, hbytes⟩ := hunpacked d (.ofBits _)
  refine ⟨(hlast _ overwriting .codePoint).trans (by decide),
    (hlast _ overwriting .foreground).trans (by decide),
    (hlast _ overwriting .background).trans (by decide),
    (hlast _ overwriting (.flag .bold)).trans (by decide),
    (hlast _ overwriting (.flag .italic)).trans (by decide),
    (hlast _ overwriting (.flag .blink)).trans (by decide),
    hfields, hcommute c j k hfields, .ofBits _, .ofBytes 0x41 0 0 0x07,
    (hequal _ (.ofBytes 0x41 0 0 0x07)).mpr fun f => ?_, hbytes⟩
  cases f with
  | flag a => cases a <;> decide
  | _ => decide

end Cell
end RemoteScreen
