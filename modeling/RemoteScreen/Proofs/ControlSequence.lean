import Mathlib.Algebra.Ring.Nat
import RemoteScreen.Proofs.Display.Reading

/-! Control sequences byte by byte. The digits of a number are written from the last one backwards, in a
buffer with room for twenty of them; this goes well for every machine word (`ofWord?_eq`), as no word has
more digits. So the sequences have bounded lengths, and a cursor move holds its two numbers exactly. -/

namespace RemoteScreen

/-! ### Digits -/

namespace Decimal

variable {n k cursor : Nat} {w : UInt64} {buffer : List UInt8}

/-- Digits write a number, without zeros before it. -/
structure Writes (ds : List Nat) (n : Nat) : Prop where
  digit : ∀ d ∈ ds, d < 10
  value_eq : value ds = n
  nonempty : ds ≠ []
  leading : ds.head? = some 0 → ds = [0]

theorem digits_of_lt (h : n < 10) : digits n = [n] := by
  rw [digits, if_pos h]

theorem digits_of_le (h : 10 ≤ n) : digits n = digits (n / 10) ++ [n % 10] := by
  rw [digits, if_neg (Nat.not_lt_of_le h)]

theorem writes_digits (n : Nat) : Writes (digits n) n where
  digit _ := lt_ten_of_mem_digits
  value_eq := value_digits n
  nonempty := digits_ne_nil n
  leading h := by
    have hn : n = 0 := Decidable.byContradiction fun hn => head?_digits_ne_zero hn h
    rw [hn, digits_of_lt (by decide)]

theorem length_digits_le (hk : 0 < k) (h : n < 10 ^ k) : (digits n).length ≤ k := by
  induction k generalizing n with
  | zero => exact absurd hk (Nat.lt_irrefl 0)
  | succ k ih =>
    rcases Nat.lt_or_ge n 10 with hn | hn
    · rw [digits_of_lt hn]
      exact Nat.succ_le_succ (Nat.zero_le k)
    · have hpow : n < 10 ^ k * 10 := h
      have hk' : 0 < k := by
        refine Nat.pos_of_ne_zero fun hzero => ?_
        rw [hzero] at hpow
        omega
      rw [digits_of_le hn, List.length_append]
      exact Nat.succ_le_succ (ih hk' (by omega))

theorem length_bytes_le (hk : 0 < k) (h : n < 10 ^ k) : (bytes n).length ≤ k := by
  rw [bytes, List.length_map]
  exact length_digits_le hk h

/-- The digits that a machine word has at most. -/
def room : Nat := 20

theorem length_digits_word (w : UInt64) : (digits w.toNat).length ≤ room :=
  length_digits_le (by decide) (Nat.lt_of_lt_of_le w.toNat_lt (by decide))

/-- Writes the digits of a word in front of the cursor, the last one first. The cursor may not pass the
start of the buffer. -/
def fill? (buffer : List UInt8) (cursor : Nat) (w : UInt64) : Option (List UInt8 × Nat) :=
  match cursor with
  | 0 => none
  | cursor + 1 =>
    let buffer := buffer.set cursor (0x30 + (w % 10).toUInt8)
    if w / 10 = 0 then some (buffer, cursor) else fill? buffer cursor (w / 10)

/-- The digits of a word, as they are computed. -/
def ofWord? (w : UInt64) : Option (List UInt8) :=
  (fill? (List.replicate room 0) room w).map fun (buffer, cursor) => buffer.drop cursor

theorem div_ten_eq_zero_iff (w : UInt64) : w / 10 = 0 ↔ w.toNat < 10 := by
  rw [← UInt64.toNat_inj, UInt64.toNat_div]
  show w.toNat / 10 = 0 ↔ _
  omega

theorem digit_byte (w : UInt64) : 0x30 + (w % 10).toUInt8 = UInt8.ofNat (0x30 + w.toNat % 10) := by
  rw [← UInt8.toNat_inj, UInt8.toNat_add, UInt64.toNat_toUInt8, UInt64.toNat_mod, UInt8.toNat_ofNat']
  show (48 + w.toNat % 10 % 2 ^ 8) % 2 ^ 8 = (48 + w.toNat % 10) % 2 ^ 8
  omega

theorem drop_set_self (buffer : List UInt8) (b : UInt8) (h : cursor < buffer.length) :
    (buffer.set cursor b).drop cursor = b :: buffer.drop (cursor + 1) := by
  rw [List.drop_set, if_neg (Nat.lt_irrefl cursor), Nat.sub_self, List.drop_eq_getElem_cons h,
    List.set_cons_zero]

/-- If there is room for the digits, they come to stand in front of the cursor. -/
theorem fill?_eq (hroom : (digits w.toNat).length ≤ cursor) (hsize : cursor ≤ buffer.length) :
    ∃ filled, fill? buffer cursor w = some (filled, cursor - (digits w.toNat).length) ∧
      filled.drop (cursor - (digits w.toNat).length) = bytes w.toNat ++ buffer.drop cursor := by
  induction cursor generalizing w buffer with
  | zero => exact absurd (List.length_eq_zero_iff.mp (Nat.le_zero.mp hroom)) (digits_ne_nil _)
  | succ cursor ih =>
    have hset := drop_set_self buffer (0x30 + (w % 10).toUInt8) hsize
    rw [digit_byte] at hset
    simp only [fill?, digit_byte, div_ten_eq_zero_iff]
    split
    next hlt =>
      rw [bytes, digits_of_lt hlt]
      refine ⟨_, rfl, hset.trans ?_⟩
      rw [Nat.mod_eq_of_lt hlt]
      rfl
    next hge =>
      have hdiv : (w / 10).toNat = w.toNat / 10 := UInt64.toNat_div w 10
      have hdigits := digits_of_le (Nat.le_of_not_lt hge)
      have hlength : (digits w.toNat).length = (digits (w / 10).toNat).length + 1 := by
        rw [hdigits, hdiv, List.length_append, List.length_singleton]
      have hroom' : (digits (w / 10).toNat).length ≤ cursor := by omega
      have hsize' : cursor ≤ (buffer.set cursor (UInt8.ofNat (0x30 + w.toNat % 10))).length := by
        rw [List.length_set]
        exact Nat.le_of_succ_le hsize
      obtain ⟨filled, hfill, hdrop⟩ := ih hroom' hsize'
      rw [hlength, Nat.add_sub_add_right]
      refine ⟨filled, hfill, hdrop.trans ?_⟩
      rw [hset, hdiv, bytes, bytes, hdigits, List.map_append, List.append_assoc]
      rfl

theorem ofWord?_eq (w : UInt64) : ofWord? w = some (bytes w.toNat) := by
  have hsize : room ≤ (List.replicate room (0 : UInt8)).length :=
    Nat.le_of_eq List.length_replicate.symm
  obtain ⟨filled, hfill, hdrop⟩ := fill?_eq (length_digits_word w) hsize
  rw [ofWord?, hfill]
  refine congrArg some (hdrop.trans ?_)
  rw [List.drop_replicate, Nat.sub_self, List.replicate_zero, List.append_nil]

end Decimal

/-! ### Cursor moves -/

namespace ControlSequence

open Decimal (bytes digits)

/-- The number after a word; the largest has none. -/
def ordinalWord (w : UInt64) : UInt64 :=
  if w = UInt64.ofNat maxParameter then w else w + 1

theorem toNat_ordinalWord (w : UInt64) : (ordinalWord w).toNat = ordinal w.toNat := by
  have hlt := w.toNat_lt
  rw [ordinalWord, ordinal]
  split
  next hmax =>
    rw [hmax]
    rfl
  next hne =>
    have hne : w.toNat ≠ maxParameter := fun h => hne (UInt64.toNat_inj.mp h)
    rw [UInt64.toNat_add]
    simp only [maxParameter] at hne ⊢
    show (w.toNat + 1) % 2 ^ 64 = _
    omega

/-- A cursor move, as it is computed. -/
def cursorPosition? (row col : UInt64) : Option (List UInt8) := do
  let row ← Decimal.ofWord? (ordinalWord row)
  let col ← Decimal.ofWord? (ordinalWord col)
  return introducer ++ row ++ ascii ";" ++ col ++ ascii "H"

theorem cursorPosition?_eq (row col : UInt64) :
    cursorPosition? row col = some (cursorPosition row.toNat col.toNat) := by
  rw [cursorPosition?, Decimal.ofWord?_eq, Decimal.ofWord?_eq, toNat_ordinalWord, toNat_ordinalWord]
  rfl

/-- Before the last byte of a cursor move a display has read its two numbers. -/
theorem mode_read_numbers {d : Display} (hd : d.mode = .ground) (row col : Nat) :
    (d.read (cursorPosition row col).dropLast).mode =
      .parameters false [some (ordinal row)] (some (ordinal col)) := by
  have hlast : cursorPosition row col =
      (introducer ++ bytes (ordinal row) ++ ascii ";" ++ bytes (ordinal col)) ++ [0x48] := rfl
  rw [hlast, List.dropLast_concat, List.append_assoc, List.append_assoc, Display.read_append,
    Display.read_introducer hd, Display.read_append, Display.read_decimal rfl, Display.read_append,
    Display.read_semicolon rfl, Display.read_decimal rfl]
  rfl

/-! ### Lengths -/

theorem length_bytes_ordinal (n : Nat) : (bytes (ordinal n)).length ≤ Decimal.room :=
  Decimal.length_bytes_le (by decide) (Nat.lt_of_le_of_lt (Nat.min_le_right _ _) (by decide))

theorem length_cursorPosition_le (row col : Nat) :
    (cursorPosition row col).length ≤ maxCursorPositionLength := by
  have hrow : (bytes (ordinal row)).length ≤ 20 := length_bytes_ordinal row
  have hcol : (bytes (ordinal col)).length ≤ 20 := length_bytes_ordinal col
  have hsemicolon : (ascii ";").length = 1 := rfl
  have hfinal : (ascii "H").length = 1 := rfl
  simp only [cursorPosition, introducer, List.length_append, List.length_cons, List.length_nil,
    maxCursorPositionLength]
  omega

example : (cursorPosition maxParameter maxParameter).length = maxCursorPositionLength := by
  decide +kernel

/-- Parameters behind a first one. -/
def further (codes : List Nat) : List UInt8 :=
  codes.flatMap fun c => ascii ";" ++ bytes c

theorem parameters_cons (c : Nat) (codes : List Nat) :
    parameters (c :: codes) = bytes c ++ further codes := by
  induction codes generalizing c with
  | nil => simp [parameters, further]
  | cons c' codes ih =>
    have hp : parameters (c :: c' :: codes) = bytes c ++ (ascii ";" ++ parameters (c' :: codes)) := by
      simp [parameters]
    rw [hp, ih, further, further, List.flatMap_cons, List.append_assoc]

theorem length_further_le {k : Nat} {codes : List Nat} (hk : 0 < k) (h : ∀ c ∈ codes, c < 10 ^ k) :
    (further codes).length ≤ codes.length * (k + 1) := by
  induction codes with
  | nil => exact Nat.zero_le _
  | cons c codes ih =>
    have hc : (bytes c).length ≤ k := Decimal.length_bytes_le hk (h c List.mem_cons_self)
    have hrest : (further codes).length ≤ codes.length * (k + 1) :=
      ih fun c hc => h c (List.mem_cons_of_mem _ hc)
    have hsemicolon : (ascii ";").length = 1 := rfl
    rw [further, List.flatMap_cons, ← further, List.length_append, List.length_append,
      List.length_cons, Nat.add_one_mul]
    omega

/-- The attributes take a digit each, the colours two. -/
theorem length_parameters_styleCodes_le (previous : Option Cell) (cell : Cell) :
    (parameters (styleCodes previous cell)).length ≤ 15 := by
  have hforeground := cell.foreground.index_lt
  have hbackground := cell.background.index_lt
  rw [styleCodes]
  split
  · have hfirst : (bytes (30 + cell.foreground.index)).length ≤ 2 :=
      Decimal.length_bytes_le (by decide) (by omega)
    have hsecond : (further [40 + cell.background.index]).length ≤ 1 * 3 :=
      length_further_le (by decide) (by simp; omega)
    rw [parameters_cons, List.length_append]
    omega
  · have hzero : (bytes 0).length ≤ 1 := Decimal.length_bytes_le (by decide) (by decide)
    have hcolors : (further [30 + cell.foreground.index, 40 + cell.background.index]).length ≤ 2 * 3 :=
      length_further_le (by decide) (by simp; omega)
    have hcount : (attributeOrder.filter cell.has).length ≤ 4 := List.length_filter_le _ _
    have hattributes : (further ((attributeOrder.filter cell.has).map attributeCode)).length ≤
        ((attributeOrder.filter cell.has).map attributeCode).length * 2 := by
      refine length_further_le (by decide) fun c hc => ?_
      obtain ⟨a, -, rfl⟩ := List.mem_map.mp hc
      cases a <;> decide
    rw [List.length_map] at hattributes
    rw [List.cons_append, parameters_cons, further, List.flatMap_append, ← further, ← further,
      List.length_append, List.length_append]
    omega

theorem length_setStyle_le (previous : Option Cell) (cell : Cell) :
    (setStyle previous cell).length ≤ maxStyleLength := by
  have hparameters := length_parameters_styleCodes_le previous cell
  have hfinal : (ascii "m").length = 1 := rfl
  simp only [setStyle, introducer, List.length_append, List.length_cons, List.length_nil,
    maxStyleLength]
  omega

example : (setStyle none ⟨0x7FFFFFFF⟩).length = maxStyleLength := by
  decide +kernel

end ControlSequence
end RemoteScreen
