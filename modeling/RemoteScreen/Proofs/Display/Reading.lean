import RemoteScreen.Connection
import RemoteScreen.Proofs.Display.Basic

/-! What a display makes of the sequences that a screen sends. Each lemma starts and ends between
two sequences, so that they chain through `read_append`. -/

namespace RemoteScreen
namespace Display
open ControlSequence

variable {d : Display} {isPrivate : Bool} {before : List (Option Nat)} {last : Option Nat}

theorem toNat_ofNat {n : Nat} (h : n < 256) : (UInt8.ofNat n).toNat = n := by
  rw [UInt8.toNat_ofNat']
  exact Nat.mod_eq_of_lt h

/-! ### Parameters -/

theorem step_digit {k : Nat} (hm : d.mode = .parameters isPrivate before last) (hk : k < 10) :
    d.step (UInt8.ofNat (0x30 + k)) =
      { d with mode := .parameters isPrivate before (some (10 * last.getD 0 + k)) } := by
  simp only [step, hm]
  rw [toNat_ofNat (by omega), readParameter, if_pos (by omega), Nat.add_sub_cancel_left]

theorem read_digits {ds : List Nat} (hds : ∀ k ∈ ds, k < 10) (hne : ds ≠ [])
    (hm : d.mode = .parameters isPrivate before last) :
    d.read (ds.map fun k => UInt8.ofNat (0x30 + k)) =
      { d with mode :=
          .parameters isPrivate before (some (ds.foldl (fun v k => 10 * v + k) (last.getD 0))) } := by
  induction ds generalizing d last with
  | nil => exact absurd rfl hne
  | cons k ds ih =>
    rw [List.map_cons, read_cons, step_digit hm (hds k List.mem_cons_self), List.foldl_cons]
    by_cases hnil : ds = []
    · subst hnil
      rfl
    · have hm' : Display.mode
          { d with mode := .parameters isPrivate before (some (10 * last.getD 0 + k)) } = _ := rfl
      rw [ih (fun j hj => hds j (List.mem_cons_of_mem _ hj)) hnil hm']
      rfl

theorem read_decimal {n : Nat} (hm : d.mode = .parameters isPrivate before none) :
    d.read (Decimal.bytes n) = { d with mode := .parameters isPrivate before (some n) } := by
  rw [Decimal.bytes, read_digits (fun _ => Decimal.lt_ten_of_mem_digits) (Decimal.digits_ne_nil n) hm]
  congr
  exact Decimal.value_digits n

theorem read_semicolon (hm : d.mode = .parameters isPrivate before last) :
    d.read (ascii ";") = { d with mode := .parameters isPrivate (before ++ [last]) none } := by
  simp only [show ascii ";" = [0x3B] from rfl, read_cons, read_nil, step, hm]
  rfl

/-- Whether a byte ends a control sequence and is no part of its parameters. -/
def Final (b : UInt8) : Prop :=
  0x40 ≤ b.toNat

instance (b : UInt8) : Decidable (Final b) :=
  inferInstanceAs (Decidable (_ ≤ _))

theorem step_final {b : UInt8} (hb : Final b) (hm : d.mode = .parameters false before last) :
    d.step b = d.execute b.toNat (before ++ [last]) := by
  unfold Final at hb
  simp only [step, hm, readParameter]
  rw [if_neg (by omega), if_neg (by omega), if_neg (by omega)]
  rfl

theorem read_introducer (hd : d.mode = .ground) :
    d.read introducer = { d with mode := .parameters false [] none } := by
  simp only [introducer, read_cons, read_nil, step, hd]
  rfl

theorem execute_mode (m : Mode) (final : Nat) (ps : List (Option Nat)) :
    ({ d with mode := m } : Display).execute final ps = d.execute final ps := rfl

/-- A control sequence with numbers for all of its parameters. -/
theorem read_parameters {codes : List Nat} {b : UInt8} (hb : Final b) (hne : codes ≠ [])
    (hm : d.mode = .parameters false before none) :
    d.read (parameters codes ++ [b]) = d.execute b.toNat (before ++ codes.map some) := by
  induction codes generalizing d before with
  | nil => exact absurd rfl hne
  | cons c codes ih =>
    cases codes with
    | nil =>
      have hp : parameters [c] = Decimal.bytes c := by simp [parameters]
      rw [hp, read_append, read_decimal hm, read_cons, read_nil, step_final hb rfl]
      exact execute_mode _ _ _
    | cons c' codes =>
      have hp : parameters (c :: c' :: codes) =
          Decimal.bytes c ++ (ascii ";" ++ parameters (c' :: codes)) := by
        simp [parameters]
      rw [hp, List.append_assoc, List.append_assoc, read_append, read_decimal hm, read_append,
        read_semicolon rfl, ih (List.cons_ne_nil _ _) rfl, execute_mode, execute_mode,
        List.append_assoc]
      rfl

theorem read_sequence {codes : List Nat} {b : UInt8} (hb : Final b) (hne : codes ≠ [])
    (hd : d.mode = .ground) :
    d.read (introducer ++ parameters codes ++ [b]) = d.execute b.toNat (codes.map some) := by
  rw [List.append_assoc, read_append, read_introducer hd, read_parameters hb hne rfl, execute_mode,
    List.nil_append]

/-! ### Cursor moves and styles -/

theorem read_cursorPosition (row col : Nat) (hd : d.mode = .ground) :
    d.read (cursorPosition row col) =
      { d with row := ordinal row - 1, column := ordinal col - 1, mode := .ground } := by
  have hp : cursorPosition row col = introducer ++ parameters [ordinal row, ordinal col] ++ [0x48] := by
    simp [cursorPosition, parameters, ascii]
  rw [hp, read_sequence (by decide) (List.cons_ne_nil _ _) hd]
  rfl

theorem ordinal_sub_one {n : Nat} (h : n < maxParameter) : ordinal n - 1 = n := by
  have hn : n + 1 ≤ maxParameter := h
  rw [ordinal, Nat.min_eq_left hn, Nat.add_sub_cancel]

/-- The attributes that are sent one by one come on top of those that the pen has. -/
theorem foldl_select_attributes (as : List Attribute) (pen : Style) :
    (as.map attributeCode).foldl d.select pen =
      { pen with attributes := fun a => as.contains a || pen.attributes a } := by
  induction as generalizing pen with
  | nil => rfl
  | cons a as ih =>
    have ha : d.select pen (attributeCode a) = pen.set a := by cases a <;> rfl
    rw [List.map_cons, List.foldl_cons, ha, ih]
    simp only [Style.set, Style.mk.injEq, true_and]
    funext b
    rw [List.contains_cons, Bool.or_comm (b == a), Bool.or_assoc]
    rfl

theorem select_foreground (pen : Style) (color : Color) :
    d.select pen (30 + color.index) = { pen with foreground := color } := by
  cases color <;> rfl

theorem select_background (pen : Style) (color : Color) :
    d.select pen (40 + color.index) = { pen with background := color } := by
  cases color <;> rfl

/-- The parameters of a style select it, whatever the pen is when they reset it, and if the pen is
known when they do not. -/
theorem foldl_select_styleCodes {previous : Option Cell} {c : Cell}
    (hp : ∀ p, previous = some p → d.pen = .ofCell p) :
    (styleCodes previous c).foldl d.select d.pen = .ofCell c := by
  unfold styleCodes
  split
  next h =>
    obtain ⟨p, rfl, hpc⟩ := (Option.any_eq_true _ _).mp h
    simp only [List.foldl_cons, List.foldl_nil, select_foreground, select_background, hp p rfl]
    simp only [Style.ofCell, Style.mk.injEq, true_and]
    funext a
    exact Cell.has_eq_of_attributesEq hpc a
  next =>
    simp only [List.cons_append, List.foldl_append, List.foldl_cons, List.foldl_nil,
      foldl_select_attributes, select_foreground, select_background]
    simp only [Style.ofCell, Style.mk.injEq, true_and]
    funext a
    have hall : a ∈ attributeOrder := by cases a <;> decide
    have hplain : (d.select d.pen 0).attributes a = false := rfl
    rw [hplain, Bool.or_false, Bool.eq_iff_iff, List.contains_iff_mem, List.mem_filter]
    exact ⟨fun h => h.2, fun h => ⟨hall, h⟩⟩

theorem read_setStyle {previous : Option Cell} {c : Cell} (hd : d.mode = .ground)
    (hp : ∀ p, previous = some p → d.pen = .ofCell p) :
    d.read (setStyle previous c) = { d with pen := .ofCell c, mode := .ground } := by
  have hne : styleCodes previous c ≠ [] := by
    unfold styleCodes
    split <;> simp
  have hpen : ((styleCodes previous c).map some).map (·.getD 0) = styleCodes previous c := by
    rw [List.map_map]
    exact List.map_id _
  have hsel := foldl_select_styleCodes (c := c) hp
  rw [← hpen] at hsel
  rw [setStyle, show ascii "m" = [0x6D] from rfl, read_sequence (by decide) hne hd, ← hsel]
  rfl

/-! ### Code points -/

theorem step_continuation {value missing : Nat} (n : Nat) (hm : d.mode = .character value missing) :
    d.step (CodePoint.continuation n) =
      if missing ≤ 1 then { d.put (value * 0x40 + n % 0x40) with mode := .ground }
      else { d with mode := .character (value * 0x40 + n % 0x40) (missing - 1) } := by
  have hlt : n % 0x40 < 0x40 := Nat.mod_lt _ (by decide)
  have hn : (CodePoint.continuation n).toNat = 0x80 + n % 0x40 := toNat_ofNat (by omega)
  have hmod : (0x80 + n % 0x40) % 0x40 = n % 0x40 := by omega
  simp only [step, hm, hn, readCharacter]
  rw [if_pos (by omega), hmod]

theorem mode_put (cp : Nat) : (d.put cp).mode = d.mode := by
  simp only [put]
  split <;> rfl

theorem pen_put (cp : Nat) : (d.put cp).pen = d.pen := by
  simp only [put]
  split <;> rfl

theorem put_mode (m : Mode) (cp : Nat) :
    { ({ d with mode := m } : Display).put cp with mode := .ground } =
      { d.put cp with mode := .ground } := by
  simp only [put]
  split <;> rfl

theorem read_encode_of_lt {n : Nat} (hn : n < CodePoint.limit) (hp : Printable n)
    (hd : d.mode = .ground) : d.read (CodePoint.encode n) = { d.put n with mode := .ground } := by
  obtain ⟨hlow, hdel⟩ := hp
  simp only [CodePoint.encode, Nat.mod_eq_of_lt hn]
  simp only [CodePoint.limit] at hn
  split
  next h1 =>
    simp only [read_cons, read_nil, step, hd, toNat_ofNat (show n < 256 by omega), readGround]
    rw [if_neg (by omega), if_neg (by omega), if_pos h1, ← (mode_put n).trans hd]
  split
  next h1 h2 =>
    have hlead : d.step (UInt8.ofNat (0xC0 + n / 0x40)) = { d with mode := .character (n / 0x40) 1 } := by
      simp only [step, hd, toNat_ofNat (show 0xC0 + n / 0x40 < 256 by omega), readGround]
      rw [if_neg (by omega), if_neg (by omega), if_neg (by omega), if_neg (by omega),
        if_pos (by omega), show (0xC0 + n / 0x40) % 0x20 = n / 0x40 by omega]
    have hv : n / 0x40 * 0x40 + n % 0x40 = n := by omega
    simp only [read_cons, read_nil, hlead]
    rw [step_continuation n rfl, if_pos (Nat.le_refl 1), hv, put_mode]
  split
  next h1 h2 h3 =>
    have hlead : d.step (UInt8.ofNat (0xE0 + n / 0x1000)) =
        { d with mode := .character (n / 0x1000) 2 } := by
      simp only [step, hd, toNat_ofNat (show 0xE0 + n / 0x1000 < 256 by omega), readGround]
      rw [if_neg (by omega), if_neg (by omega), if_neg (by omega), if_neg (by omega),
        if_neg (by omega), if_pos (by omega), show (0xE0 + n / 0x1000) % 0x10 = n / 0x1000 by omega]
    have hv : (n / 0x1000 * 0x40 + n / 0x40 % 0x40) * 0x40 + n % 0x40 = n := by omega
    simp only [read_cons, read_nil, hlead]
    rw [step_continuation (n / 0x40) rfl, if_neg (by decide), step_continuation n rfl,
      if_pos (by decide), hv, put_mode, put_mode]
  next h1 h2 h3 =>
    have hlead : d.step (UInt8.ofNat (0xF0 + n / 0x40000)) =
        { d with mode := .character (n / 0x40000) 3 } := by
      simp only [step, hd, toNat_ofNat (show 0xF0 + n / 0x40000 < 256 by omega), readGround]
      rw [if_neg (by omega), if_neg (by omega), if_neg (by omega), if_neg (by omega),
        if_neg (by omega), if_neg (by omega), if_pos (by omega),
        show (0xF0 + n / 0x40000) % 0x08 = n / 0x40000 by omega]
    have hv : ((n / 0x40000 * 0x40 + n / 0x1000 % 0x40) * 0x40 + n / 0x40 % 0x40) * 0x40 +
        n % 0x40 = n := by omega
    simp only [read_cons, read_nil, hlead]
    rw [step_continuation (n / 0x1000) rfl, if_neg (by decide), step_continuation (n / 0x40) rfl,
      if_neg (by decide), step_continuation n rfl, if_pos (by decide), hv, put_mode, put_mode,
      put_mode]

/-! ### What is queued ahead of a screen -/

theorem read_reset (hd : d.mode = .ground) :
    d.read reset = { d with pen := d.plainPen, mode := .ground } := by
  rw [reset, read_append, read_introducer hd]
  rfl

theorem read_clearScreen (hd : d.mode = .ground) :
    d.read clearScreen = { d with grid := fun _ _ => d.cleared d.pen, mode := .ground } := by
  rw [clearScreen, read_append, read_introducer hd]
  rfl

theorem read_cursorVisible (visible : Bool) (hd : d.mode = .ground) :
    d.read (cursorVisible visible) = { d with mode := .ground } := by
  cases visible
  · rw [show cursorVisible false = introducer ++ ascii "?25l" from rfl, read_append,
      read_introducer hd]
    rfl
  · rw [show cursorVisible true = introducer ++ ascii "?25h" from rfl, read_append,
      read_introducer hd]
    rfl

theorem read_command (verb : Telnet.Verb) (option : UInt8) (hd : d.mode = .ground) :
    d.read (verb.command option) = { d with mode := .ground } := by
  simp only [Telnet.Verb.command, read_cons, read_nil, step, hd]
  rfl

theorem read_negotiation (hd : d.mode = .ground) :
    d.read Connection.negotiation = { d with mode := .ground } := by
  rw [Connection.negotiation, read_append, read_append, read_append, read_command _ _ hd,
    read_command _ _ rfl, read_command _ _ rfl, read_command _ _ rfl]

end Display
end RemoteScreen
