import RemoteScreen.Proofs.Screen.Drawn
import RemoteScreen.Proofs.Snapshot.Documents

/-! Snapshots as text. Each row of the grid is a line, a character for each cell. The room for it is
set aside before anything else, and for some grids without cells that is more than can be set aside.
These are accepted all the same, and of all that is accepted they alone have no text. -/

namespace RemoteScreen.Snapshot

open Screen (word? word?_of_le)

variable {s : Snapshot} {cells : List Cell} {width height n x y : Nat}

/-! ### Characters -/

/-- The code point that stands for one in a text: the replacement character for a surrogate and for
what is above U+10FFFF. -/
def visible (cp : Nat) : Nat :=
  if 0xD800 ≤ cp ∧ cp ≤ 0xDFFF ∨ 0x10FFFF < cp then 0xFFFD else cp

/-- The character of a cell in a text. -/
def glyph (c : Cell) : Char :=
  c.char?.getD replacement

theorem toNat_glyph (c : Cell) : (glyph c).toNat = visible c.codePoint := by
  have hvalid : c.codePoint.isValidChar ↔
      ¬(0xD800 ≤ c.codePoint ∧ c.codePoint ≤ 0xDFFF ∨ 0x10FFFF < c.codePoint) := by
    unfold Nat.isValidChar
    omega
  unfold glyph Cell.char? visible
  split
  next h =>
    have hchar : Char.ofNat c.codePoint = Char.ofNatAux c.codePoint h := dif_pos h
    rw [if_neg (hvalid.mp h), Option.getD_some, hchar]
    rfl
  next h =>
    rw [if_pos (Decidable.not_not.mp (mt hvalid.mpr h))]
    rfl

/-- Cells are seen to differ where their code points are. -/
theorem map_glyph_eq_iff {other : List Cell} : other.map glyph = cells.map glyph ↔
    other.map (visible ·.codePoint) = cells.map (visible ·.codePoint) := by
  have hvisible (cs : List Cell) :
      cs.map (visible ·.codePoint) = (cs.map glyph).map Char.toNat := by
    rw [List.map_map]
    exact List.map_congr_left fun c _ => (toNat_glyph c).symm
  rw [hvisible, hvisible]
  exact (List.map_inj_right fun _ _ => Char.toNat_inj.mp).symm

/-! ### Lines -/

/-- The characters of a grid, row by row. -/
def lines (width : Nat) (cells : List Cell) : List Char :=
  (chunks width cells).flatMap fun row => row.map glyph ++ ['\n']

theorem lines_nil (width : Nat) : lines width [] = [] := by
  rw [lines, chunks_nil, List.flatMap_nil]

/-- A grid is its first row and the rows below it. -/
theorem lines_row (hwidth : 0 < width) (hcells : cells.length = width * (n + 1)) :
    lines width cells =
      (cells.take width).map glyph ++ '\n' :: lines width (cells.drop width) := by
  have hne : cells ≠ [] := by
    rintro rfl
    have hpos := Nat.mul_pos hwidth n.succ_pos
    rw [← hcells] at hpos
    cases hpos
  rw [lines, chunks_of_ne_nil (Nat.ne_of_gt hwidth) hne, List.flatMap_cons, List.append_assoc]
  rfl

theorem length_take_row (hcells : cells.length = width * (n + 1)) :
    ((cells.take width).map glyph).length = width := by
  rw [List.length_map, List.length_take, hcells]
  exact Nat.min_eq_left (Nat.le_mul_of_pos_right width n.succ_pos)

theorem length_drop_row (hcells : cells.length = width * (n + 1)) :
    (cells.drop width).length = width * n := by
  rw [List.length_drop, hcells, Nat.mul_add_one, Nat.add_sub_cancel]

theorem length_lines (hwidth : 0 < width) (hcells : cells.length = width * n) :
    (lines width cells).length = (width + 1) * n := by
  induction n generalizing cells with
  | zero =>
    rw [List.length_eq_zero_iff.mp hcells, lines_nil]
    rfl
  | succ n ih =>
    rw [lines_row hwidth hcells, List.length_append, List.length_cons, length_take_row hcells,
      ih (length_drop_row hcells), Nat.mul_add_one]
    omega

theorem drop_lines_row (hwidth : 0 < width) (hcells : cells.length = width * (n + 1)) :
    (lines width cells).drop (width + 1) = lines width (cells.drop width) := by
  have hrow := length_take_row hcells
  rw [lines_row hwidth hcells, ← List.drop_drop, List.drop_left' hrow]
  rfl

/-- The line of a row begins behind those of the rows above it. -/
theorem drop_lines (hwidth : 0 < width) (hcells : cells.length = width * n) (hy : y ≤ n) :
    (lines width cells).drop (y * (width + 1)) = lines width (cells.drop (y * width)) := by
  induction y generalizing cells n with
  | zero => rw [Nat.zero_mul, Nat.zero_mul, List.drop_zero, List.drop_zero]
  | succ y ih =>
    obtain ⟨n, rfl⟩ := Nat.exists_eq_add_one_of_ne_zero (Nat.ne_zero_of_lt hy)
    calc (lines width cells).drop ((y + 1) * (width + 1))
      _ = ((lines width cells).drop (width + 1)).drop (y * (width + 1)) := by
        rw [List.drop_drop, Nat.succ_mul, Nat.add_comm]
      _ = (lines width (cells.drop width)).drop (y * (width + 1)) := by
        rw [drop_lines_row hwidth hcells]
      _ = lines width ((cells.drop width).drop (y * width)) :=
        ih (length_drop_row hcells) (Nat.le_of_succ_le_succ hy)
      _ = lines width (cells.drop ((y + 1) * width)) := by
        rw [List.drop_drop, Nat.succ_mul, Nat.add_comm]

/-- From the line of a row on, a text has the characters of its cells, a line break, and what is
below. -/
theorem lines_drop_row (hwidth : 0 < width) (hcells : cells.length = width * height)
    (hy : y < height) : ∃ row rest, row.length = width ∧
      (∀ x < width, row[x]? = cells[y * width + x]?.map glyph) ∧
      (lines width cells).drop (y * (width + 1)) = row ++ '\n' :: rest := by
  obtain ⟨n, rfl⟩ := Nat.exists_eq_add_of_lt hy
  have hbelow : (cells.drop (y * width)).length = width * (n + 1) := by
    rw [List.length_drop, hcells, Nat.add_assoc, Nat.mul_add, Nat.mul_comm width y,
      Nat.add_sub_cancel_left]
  refine ⟨_, _, length_take_row hbelow, fun x hx => ?_,
    (drop_lines hwidth hcells (Nat.le_of_lt hy)).trans (lines_row hwidth hbelow)⟩
  rw [List.getElem?_map, List.getElem?_take_of_lt hx, List.getElem?_drop]

theorem getElem?_lines (hwidth : 0 < width) (hcells : cells.length = width * height)
    (hx : x < width) (hy : y < height) :
    (lines width cells)[y * (width + 1) + x]? = cells[y * width + x]?.map glyph := by
  obtain ⟨row, rest, hrow, hcell, hdrop⟩ := lines_drop_row hwidth hcells hy
  rw [← List.getElem?_drop, hdrop, List.getElem?_append_left (hrow ▸ hx), hcell x hx]

theorem getElem?_lines_end (hwidth : 0 < width) (hcells : cells.length = width * height)
    (hy : y < height) : (lines width cells)[y * (width + 1) + width]? = some '\n' := by
  obtain ⟨row, rest, hrow, -, hdrop⟩ := lines_drop_row hwidth hcells hy
  rw [← List.getElem?_drop, hdrop, List.getElem?_append_right (Nat.le_of_eq hrow), hrow,
    Nat.sub_self]
  rfl

/-- Two texts of one shape are the same exactly if every place has the same character in both. -/
theorem lines_eq_iff {other : List Cell} (hwidth : 0 < width) (hother : other.length = width * n)
    (hcells : cells.length = width * n) :
    lines width other = lines width cells ↔ other.map glyph = cells.map glyph := by
  induction n generalizing other cells with
  | zero =>
    rw [List.length_eq_zero_iff.mp hother, List.length_eq_zero_iff.mp hcells]
    exact iff_of_true rfl rfl
  | succ n ih =>
    have hrows := (length_take_row hother).trans (length_take_row hcells).symm
    have hbelow := ih (length_drop_row hother) (length_drop_row hcells)
    have hsplit (cs : List Cell) :
        cs.map glyph = (cs.take width).map glyph ++ (cs.drop width).map glyph := by
      rw [← List.map_append, List.take_append_drop]
    rw [lines_row hwidth hother, lines_row hwidth hcells, hsplit other, hsplit cells]
    constructor
    · intro h
      obtain ⟨hrow, hrest⟩ := List.append_inj h hrows
      rw [hrow, hbelow.mp (List.cons.inj hrest).2]
    · intro h
      obtain ⟨hrow, hrest⟩ := List.append_inj h hrows
      rw [hrow, hbelow.mpr hrest]

theorem utf8ByteSize_ofList_le (cs : List Char) :
    (String.ofList cs).utf8ByteSize ≤ 4 * cs.length := by
  induction cs with
  | nil => exact Nat.le_refl 0
  | cons c cs ih =>
    have hchar := c.utf8Size_le_four
    rw [String.ofList_cons, String.utf8ByteSize_append, String.utf8ByteSize_singleton,
      List.length_cons]
    omega

/-- A text takes at most four bytes for a cell, and one for a line break. -/
theorem utf8ByteSize_lines_le (hwidth : 0 < width) (hcells : cells.length = width * n) :
    (String.ofList (lines width cells)).utf8ByteSize ≤ 4 * cells.length + n := by
  induction n generalizing cells with
  | zero =>
    rw [List.length_eq_zero_iff.mp hcells, lines_nil]
    exact Nat.zero_le _
  | succ n ih =>
    have hrow := utf8ByteSize_ofList_le ((cells.take width).map glyph)
    have hbelow := ih (length_drop_row hcells)
    have hbreak : (String.singleton '\n').utf8ByteSize = 1 := rfl
    rw [length_take_row hcells] at hrow
    rw [length_drop_row hcells] at hbelow
    rw [lines_row hwidth hcells, String.ofList_append, String.utf8ByteSize_append,
      String.ofList_cons, String.utf8ByteSize_append, hbreak, hcells, Nat.mul_add_one]
    omega

/-! ### Room -/

/-- The room that is set aside for the text of a grid, computed in machine words. There is none if a
word is too small for it, or if the largest object is. -/
def textRoom? (width height : Nat) : Option Nat := do
  let columns ← word? (width + 1)
  let room ← word? (columns * height)
  if room ≤ maxObjectBytes then some room else none

theorem textRoom?_eq (width height : Nat) : textRoom? width height =
    if TextAddressable width height then some ((width + 1) * height) else none := by
  have hmax : maxObjectBytes ≤ maxCount := by decide
  by_cases hcolumns : width + 1 ≤ maxCount
  · by_cases hroom : (width + 1) * height ≤ maxCount
    · simp [textRoom?, word?, TextAddressable, hcolumns, hroom]
    · have hlarge : ¬(width + 1) * height ≤ maxObjectBytes := fun h => hroom (Nat.le_trans h hmax)
      simp [textRoom?, word?, TextAddressable, hroom, hlarge]
  · simp [textRoom?, word?, TextAddressable, hcolumns]

theorem toText_eq (s : Snapshot) : s.toText =
    if TextAddressable s.width s.height then .ok (.ofList (lines s.width s.cells))
    else .error (.textTooLarge s.width s.height) := rfl

/-- Where the cells of a grid can be addressed, so can its text, unless it has the largest width or
none. -/
theorem textAddressable_iff (hwidth : width ≤ maxCount)
    (hcells : 2 * (width * height) ≤ maxObjectBytes) :
    TextAddressable width height ↔
      width ≠ maxCount ∧ (width = 0 → height ≤ maxObjectBytes) := by
  have hcolumns : width + 1 ≤ maxCount ↔ width ≠ maxCount := by omega
  have hroom : (width + 1) * height ≤ maxObjectBytes ↔ (width = 0 → height ≤ maxObjectBytes) := by
    rw [Nat.add_one_mul]
    cases width with
    | zero => simp
    | succ width =>
      have hheight : height ≤ (width + 1) * height := Nat.le_mul_of_pos_left _ width.succ_pos
      omega
  rw [TextAddressable, hcolumns, hroom]

theorem area_eq_zero (hcells : 2 * (width * height) ≤ maxObjectBytes)
    (h : width = maxCount ∨ width = 0 ∧ maxObjectBytes < height) : width * height = 0 := by
  rcases h with rfl | ⟨rfl, -⟩
  · rcases Nat.eq_zero_or_pos height with rfl | hpos
    · rfl
    · have hwide : maxCount ≤ maxCount * height := Nat.le_mul_of_pos_right _ hpos
      have hmax : maxObjectBytes < maxCount := by decide
      omega
  · exact Nat.zero_mul height

/-- What has been read from packed cells or from a document. No bytes in memory are more than the
largest object. -/
inductive Accepted (s : Snapshot) : Prop
  | packed (width height : UInt64) (bytes : List UInt8) (hbytes : bytes.length ≤ maxObjectBytes)
      (h : Snapshot.ofBytes width.toNat height.toNat bytes = .ok s)
  | document (document : String) (hsize : document.utf8ByteSize ≤ maxObjectBytes)
      (h : Snapshot.ofDocument document = .ok s)

/-- What has been read fills its grid, and what it was read from has at least two bytes for a cell. -/
theorem Accepted.fills (h : Accepted s) : s.width ≤ maxCount ∧
    s.cells.length = s.width * s.height ∧ 2 * (s.width * s.height) ≤ maxObjectBytes := by
  cases h with
  | packed width height bytes hbytes h =>
    obtain ⟨hlength, rfl⟩ := (ofBytes_eq_ok_iff hbytes).mp h
    rw [Nat.mul_assoc] at hlength
    have hword : width.toNat < maxCount + 1 := width.toNat_lt
    refine ⟨Nat.le_of_lt_succ hword, length_unpack hlength, ?_⟩
    dsimp only
    omega
  | document document hsize h =>
    cases hwritten : written? document with
    | none =>
      rw [ofDocument_of_not_written hwritten] at h
      cases h
    | some t =>
      rw [ofDocument_of_written hwritten, check_eq (cells_lt_maxCount hsize hwritten)] at h
      split at h
      next hcells =>
        cases h
        obtain ⟨j, -, hform⟩ := Option.bind_eq_some_iff.mp hwritten
        obtain ⟨-, -, -, width, -, -, -, -, -, hwidth, -⟩ := ofJson?_eq_some_iff.mp hform
        have hword : width.toNat < maxCount + 1 := width.toNat_lt
        have hbytes := length_cells_le hwritten
        exact ⟨by omega, hcells, by omega⟩
      next => cases h

/-! ### Texts -/

theorem lines_of_no_columns (cells : List Cell) : lines 0 cells = [] := by
  rw [lines, chunks_zero, List.flatMap_nil]

/-- The room for the text of what is accepted is computed without overflow, and is no more than the
largest object, unless there are no cells at all: in the widest grid, where one more column is no
machine word, and in a grid without columns but with more rows than the largest object has bytes. These
two alone have no text. The room has a byte for each character of the text, and all of these take at
most four bytes for a cell and one for a row. -/
theorem Accepted.room_for_text (h : Accepted s) :
    (textRoom? s.width s.height = none ↔
      s.cells = [] ∧ (s.width = maxCount ∨ s.width = 0 ∧ maxObjectBytes < s.height)) ∧
    (textRoom? s.width s.height = none → s.toText = .error (.textTooLarge s.width s.height)) ∧
    ∀ room, textRoom? s.width s.height = some room →
      room = (s.width + 1) * s.height ∧ room ≤ maxObjectBytes ∧
      ∃ text, s.toText = .ok text ∧ text.length ≤ room ∧
        text.utf8ByteSize ≤ 4 * s.cells.length + s.height := by
  obtain ⟨hwidth, hcells, hsize⟩ := h.fills
  have haddressable := textAddressable_iff hwidth hsize
  rw [textRoom?_eq, toText_eq]
  split
  next hroom =>
    obtain ⟨hmax, hempty⟩ := haddressable.mp hroom
    refine ⟨iff_of_false nofun ?_, nofun, ?_⟩
    · rintro ⟨-, hlargest | ⟨hzero, hrows⟩⟩
      · exact hmax hlargest
      · exact Nat.not_lt.mpr (hempty hzero) hrows
    · rintro _ ⟨rfl⟩
      refine ⟨rfl, hroom.2, _, rfl, ?_⟩
      rcases Nat.eq_zero_or_pos s.width with hzero | hpos
      · rw [hzero, lines_of_no_columns]
        exact ⟨Nat.zero_le _, Nat.zero_le _⟩
      · exact ⟨Nat.le_of_eq (String.length_ofList.trans (length_lines hpos hcells)),
          utf8ByteSize_lines_le hpos hcells⟩
  next hroom =>
    have hdegenerate : s.width = maxCount ∨ s.width = 0 ∧ maxObjectBytes < s.height := by
      have hfails := mt haddressable.mpr hroom
      omega
    refine ⟨iff_of_true rfl ⟨?_, hdegenerate⟩, fun _ => rfl, nofun⟩
    exact List.length_eq_zero_iff.mp (hcells.trans (area_eq_zero hsize hdegenerate))

/-- Two cells, one of them no character; then the last grid without cells that has a text, and the
first one that has none. -/
theorem room_for_text_of_two :
    let two : Snapshot := ⟨2, 1, [.ofCodePoint 0x6F, .ofCodePoint 0xD800]⟩
    let last : Snapshot := ⟨0, maxObjectBytes, []⟩
    let first : Snapshot := ⟨0, maxObjectBytes + 1, []⟩
    Accepted two ∧ textRoom? 2 1 = some 3 ∧
    (∃ text, two.toText = .ok text ∧ text.length ≤ 3 ∧ text.utf8ByteSize ≤ 9) ∧
    Accepted last ∧ textRoom? 0 maxObjectBytes = some maxObjectBytes ∧
    (∃ text, last.toText = .ok text ∧ text.length ≤ maxObjectBytes ∧
      text.utf8ByteSize ≤ maxObjectBytes) ∧
    Accepted first ∧ textRoom? 0 (maxObjectBytes + 1) = none := by
  intro two last first
  have htwo : Accepted two := .packed 2 1 [0x6F, 0, 0, 0, 0, 0xD8, 0, 0] (by decide) (by decide)
  have hlast : Accepted last := .packed 0 0x7FFFFFFFFFFFFFFF [] (by decide) (by decide)
  have hfirst : Accepted first := .packed 0 0x8000000000000000 [] (by decide) (by decide)
  obtain ⟨-, -, htext⟩ := htwo.room_for_text
  obtain ⟨-, -, hempty⟩ := hlast.room_for_text
  obtain ⟨hnone, -, -⟩ := hfirst.room_for_text
  have hroom : textRoom? 2 1 = some 3 := by decide
  have hlimit : textRoom? 0 maxObjectBytes = some maxObjectBytes := by decide
  refine ⟨htwo, hroom, (htext 3 hroom).2.2, hlast, hlimit, ?_, hfirst,
    hnone.mpr ⟨rfl, .inr ⟨rfl, Nat.lt_succ_self _⟩⟩⟩
  obtain ⟨-, -, text, hok, hlength, hbytes⟩ := hempty maxObjectBytes hlimit
  exact ⟨text, hok, hlength, Nat.le_trans hbytes (by decide)⟩

/-- More rows than the largest object has bytes, with no cell in any of them, are accepted although
their text has no room. -/
theorem no_room_for_accepted_text :
    let s : Snapshot := ⟨0, 0x8000000000000000, []⟩
    ofBytes 0 0x8000000000000000 [] = .ok s ∧ Accepted s ∧ textRoom? s.width s.height = none ∧
    s.toText = .error (.textTooLarge 0 0x8000000000000000) := by
  intro s
  have hbytes : ofBytes 0 0x8000000000000000 [] = .ok s := by decide
  exact ⟨hbytes, .packed 0 0x8000000000000000 [] (by decide) hbytes, by decide, by decide⟩

/-- A snapshot without columns, whatever cells it has, and one with a cell for each place of its grid has
a text, unless no room can be set aside for it. Without columns the text is empty. Otherwise each row is
a line of as many characters as there are columns, each of which is that of the cell in its place, and a
line break. So snapshots of one size have the same text exactly if the same code points are seen in their
cells. No cells in memory are more than the largest object. -/
theorem toText_grid (hsize : Cell.byteCount * s.cells.length ≤ maxObjectBytes)
    (hcells : 0 < s.width → s.cells.length = s.width * s.height) (hwidth : s.width < maxCount)
    (hempty : s.width = 0 → s.height ≤ maxObjectBytes) :
    ∃ text, s.toText = .ok text ∧
      (s.width = 0 → text = "") ∧
      (0 < s.width → text.length = (s.width + 1) * s.height ∧
        ∀ y < s.height,
          (∀ x < s.width, ∃ c char, s.cells[y * s.width + x]? = some c ∧
            text.toList[y * (s.width + 1) + x]? = some char ∧ char.toNat = visible c.codePoint) ∧
          text.toList[y * (s.width + 1) + s.width]? = some '\n') ∧
      (s.cells.length = s.width * s.height →
        ∀ cells : List Cell, cells.length = s.width * s.height →
          ((⟨s.width, s.height, cells⟩ : Snapshot).toText = .ok text ↔
            cells.map (visible ·.codePoint) = s.cells.map (visible ·.codePoint))) := by
  have hroom : TextAddressable s.width s.height := by
    have hcount : 2 * (s.width * s.height) ≤ maxObjectBytes := by
      rcases Nat.eq_zero_or_pos s.width with hzero | hpos
      · rw [hzero, Nat.zero_mul]
        exact Nat.zero_le _
      · rw [hcells hpos] at hsize
        exact Nat.le_trans (Nat.mul_le_mul_right _ (by decide)) hsize
    exact (textAddressable_iff (Nat.le_of_lt hwidth) hcount).mpr ⟨Nat.ne_of_lt hwidth, hempty⟩
  have htext (cells : List Cell) : (⟨s.width, s.height, cells⟩ : Snapshot).toText =
      .ok (.ofList (lines s.width cells)) := if_pos hroom
  refine ⟨_, htext s.cells, fun hzero => ?_, fun hpos => ⟨?_, fun y hy => ⟨fun x hx => ?_, ?_⟩⟩,
    fun hfills cells hlength => ?_⟩
  · rw [hzero, lines_of_no_columns]
  · exact String.length_ofList.trans (length_lines hpos (hcells hpos))
  · have hplace : y * s.width + x < s.cells.length := by
      rw [hcells hpos, Nat.mul_comm s.width]
      exact Nat.lt_of_lt_of_le (Nat.add_lt_add_left hx _)
        (Nat.succ_mul y s.width ▸ Nat.mul_le_mul_right _ hy)
    refine ⟨_, _, List.getElem?_eq_getElem hplace, ?_, toNat_glyph _⟩
    rw [String.toList_ofList, getElem?_lines hpos (hcells hpos) hx hy,
      List.getElem?_eq_getElem hplace, Option.map_some]
  · rw [String.toList_ofList, getElem?_lines_end hpos (hcells hpos) hy]
  · rw [htext, Except.ok.injEq, String.ofList_inj, ← map_glyph_eq_iff]
    rcases Nat.eq_zero_or_pos s.width with hzero | hpos
    · rw [hzero, Nat.zero_mul] at hfills hlength
      rw [List.length_eq_zero_iff.mp hfills, List.length_eq_zero_iff.mp hlength]
      exact iff_of_true rfl rfl
    · exact lines_eq_iff hpos hlength hfills

/-- A square of a letter, a surrogate, a line break, and a code point that is too large; then the same
cells without a column for them. -/
theorem toText_grid_of_line_break :
    let cells := [0x41, 0xD800, 0x0A, 0x110000].map Cell.ofCodePoint
    let seen := [0x41, 0xFFFD, 0x0A, 0xDFFF].map Cell.ofCodePoint
    let s : Snapshot := ⟨2, 2, cells⟩
    Cell.byteCount * s.cells.length ≤ maxObjectBytes ∧ s.cells.length = s.width * s.height ∧
    s.width < maxCount ∧ (s.width = 0 → s.height ≤ maxObjectBytes) ∧
    (∃ text, s.toText = .ok text ∧ text.length = 6 ∧
      (∃ char, text.toList[1]? = some char ∧ char.toNat = 0xFFFD) ∧
      text.toList[2]? = some '\n' ∧ (⟨2, 2, seen⟩ : Snapshot).toText = .ok text) ∧
    (⟨0, 2, cells⟩ : Snapshot).toText = .ok "" := by
  intro cells seen s
  have hsize : Cell.byteCount * s.cells.length ≤ maxObjectBytes := by decide
  have hwidth : s.width < maxCount := by decide
  obtain ⟨text, htext, -, hlayout, hsame⟩ := toText_grid hsize (fun _ => rfl) hwidth nofun
  obtain ⟨hlength, hrows⟩ := hlayout (by decide)
  obtain ⟨hcells, hbreak⟩ := hrows 0 (by decide)
  obtain ⟨_, char, ⟨rfl⟩, hchar, hvalue⟩ := hcells 1 (by decide)
  obtain ⟨empty, hempty, hnone, -⟩ :=
    toText_grid (s := ⟨0, 2, cells⟩) hsize nofun (by decide) fun _ => by decide
  exact ⟨hsize, rfl, hwidth, nofun, ⟨text, htext, hlength, ⟨char, hchar, hvalue⟩, hbreak,
    (hsame rfl seen rfl).mpr (by decide)⟩, hnone rfl ▸ hempty⟩

/-- Two documents of grids without cells, the one without columns and the other without rows, are read
as snapshots that have no text, not even an empty one. -/
theorem no_text_of_no_columns :
    let tall := "\x7b\"width\":0,\"height\":9223372036854775808,\"cells\":[]\x7d"
    let wide := "\x7b\"width\":18446744073709551615,\"height\":0,\"cells\":[]\x7d"
    let s : Snapshot := ⟨0, 0x8000000000000000, []⟩
    let t : Snapshot := ⟨maxCount, 0, []⟩
    ofDocument tall = .ok s ∧ s.cells.length = s.width * s.height ∧ s.toText ≠ .ok "" ∧
    ofDocument wide = .ok t ∧ t.cells.length = t.width * t.height ∧ t.toText ≠ .ok "" := by
  intro tall wide s t
  exact ⟨by decide +kernel, (Nat.zero_mul _).symm, by decide, by decide +kernel, rfl, by decide⟩

end RemoteScreen.Snapshot
