import RemoteScreen.Proofs.Cell.Canonical
import RemoteScreen.Proofs.Screen.Drawn
import RemoteScreen.Proofs.Screen.Style

/-! Drawing into a block. A block lies on the screen or it does not, and then nothing is drawn at
all; otherwise each place of it takes the cell that is supplied for it, row by row, and no other
place and nothing else of the screen changes. The loops that compute the places one by one come to
the same. -/

namespace RemoteScreen

namespace Screen

variable {s t : Screen} {x y w h : Nat}

/-- The block of `w` columns and `h` rows at `(x, y)` lies on the screen. -/
def Fits (s : Screen) (x y w h : Nat) : Prop :=
  x + w ≤ s.width ∧ y + h ≤ s.height

instance (s : Screen) (x y w h : Nat) : Decidable (s.Fits x y w h) :=
  inferInstanceAs (Decidable (_ ∧ _))

/-- The place in column `cx` of row `cy` lies in the block. -/
def InBlock (x y w h cx cy : Nat) : Prop :=
  x ≤ cx ∧ cx < x + w ∧ y ≤ cy ∧ cy < y + h

instance (x y w h cx cy : Nat) : Decidable (InBlock x y w h cx cy) :=
  inferInstanceAs (Decidable (_ ∧ _))

/-! ### Places of a block -/

theorem inBlock_of_lt {i : Nat} (hi : i < w * h) : InBlock x y w h (x + i % w) (y + i / w) := by
  have hpos : 0 < w := Nat.pos_of_mul_pos_right (Nat.zero_lt_of_lt hi)
  have hcol : i % w < w := Nat.mod_lt _ hpos
  have hrow : i / w < h := Nat.div_lt_of_lt_mul hi
  exact ⟨Nat.le_add_right _ _, Nat.add_lt_add_left hcol x, Nat.le_add_right _ _,
    Nat.add_lt_add_left hrow y⟩

theorem offset_lt {cx cy : Nat} (hin : InBlock x y w h cx cy) :
    (cy - y) * w + (cx - x) < w * h := by
  obtain ⟨hx, hxw, hy, hyh⟩ := hin
  have hcol : cx - x < w := Nat.sub_lt_left_of_lt_add hx hxw
  have hrow : cy - y + 1 ≤ h := Nat.sub_lt_left_of_lt_add hy hyh
  calc (cy - y) * w + (cx - x) < (cy - y) * w + w := Nat.add_lt_add_left hcol _
    _ = w * (cy - y + 1) := by rw [Nat.mul_add_one, Nat.mul_comm]
    _ ≤ w * h := Nat.mul_le_mul_left w hrow

/-- A place of a block is the only one with its offset. -/
theorem eq_offset_iff {i cx cy : Nat} (hi : i < w * h) :
    x + i % w = cx ∧ y + i / w = cy ↔
      InBlock x y w h cx cy ∧ i = (cy - y) * w + (cx - x) := by
  constructor
  · rintro ⟨rfl, rfl⟩
    refine ⟨inBlock_of_lt hi, ?_⟩
    rw [Nat.add_sub_cancel_left, Nat.add_sub_cancel_left, Nat.div_add_mod']
  · rintro ⟨⟨hx, hxw, hy, hyh⟩, rfl⟩
    have hcol : cx - x < w := Nat.sub_lt_left_of_lt_add hx hxw
    have hpos : 0 < w := Nat.zero_lt_of_lt hcol
    have hdiv : ((cy - y) * w + (cx - x)) / w = cy - y := by
      rw [Nat.add_comm, Nat.add_mul_div_right _ _ hpos, Nat.div_eq_of_lt hcol, Nat.zero_add]
    have hmod : ((cy - y) * w + (cx - x)) % w = cx - x := by
      rw [Nat.mul_add_mod', Nat.mod_eq_of_lt hcol]
    rw [hdiv, hmod]
    exact ⟨Nat.add_sub_cancel' hx, Nat.add_sub_cancel' hy⟩

theorem Fits.contains (hfits : s.Fits x y w h) {cx cy : Nat} (hin : InBlock x y w h cx cy) :
    s.Contains cx cy := by
  obtain ⟨-, hxw, -, hyh⟩ := hin
  exact ⟨Nat.lt_of_lt_of_le hxw hfits.1, Nat.lt_of_lt_of_le hyh hfits.2⟩

theorem Fits.blockIndex_eq_iff (hfits : s.Fits x y w h) {i cx cy : Nat} (hi : i < w * h)
    (hc : s.Contains cx cy) :
    s.blockIndex x y w i = s.index cx cy ↔
      InBlock x y w h cx cy ∧ i = (cy - y) * w + (cx - x) := by
  rw [← eq_offset_iff hi]
  constructor
  · exact index_inj (hfits.contains (inBlock_of_lt hi)) hc
  · rintro ⟨rfl, rfl⟩
    rfl

/-! ### What is supplied -/

/-- Cells that are supplied for a block, row by row. -/
structure Supply where
  x : Nat
  y : Nat
  w : Nat
  h : Nat
  cells : List Cell

/-- The cell that is supplied for a place. -/
def Supply.cellAt (b : Supply) (cx cy : Nat) : Option Cell :=
  if InBlock b.x b.y b.w b.h cx cy then b.cells[(cy - b.y) * b.w + (cx - b.x)]? else none

theorem Supply.cellAt_replicate (c : Cell) :
    Supply.cellAt ⟨x, y, w, h, List.replicate (w * h) c⟩ =
      fun cx cy => if InBlock x y w h cx cy then some c else none := by
  funext cx cy
  by_cases hin : InBlock x y w h cx cy
  · rw [cellAt, if_pos hin, if_pos hin, List.getElem?_replicate, if_pos (offset_lt hin)]
  · rw [cellAt, if_neg hin, if_neg hin]

/-- What an action supplies that draws into a block: code points in the drawing style, as the
characters of a text, the bytes before the first zero or the same one for all places, or cells as
they are. -/
def Action.supply (s : Screen) : Action → Option Supply
  | .write x y text => some ⟨x, y, text.length, 1, text.toList.map fun c => s.ink c.toNat⟩
  | .writeBytes x y w h bytes =>
    some ⟨x, y, w, h, (bytes.takeWhile (· ≠ 0)).map fun b => s.ink b.toNat⟩
  | .writeBlock x y w h cps => some ⟨x, y, w, h, cps.map s.ink⟩
  | .blit x y w h cells => some ⟨x, y, w, h, cells⟩
  | .fill x y w h cp => some ⟨x, y, w, h, List.replicate (w * h) (s.ink cp)⟩
  | _ => none

theorem Fits.drawn_placeBlock (hw : WellFormed s) (hfits : s.Fits x y w h) (cells : List Cell) :
    Drawn s (s.placeBlock x y w h cells) (Supply.cellAt ⟨x, y, w, h, cells⟩) := by
  refine drawn_paint hw fun cx cy c hc => ?_
  simp only [Supply.cellAt, Option.ite_none_right_eq_some, List.mem_mapIdx, List.getElem_take,
    List.length_take, Prod.mk.injEq]
  constructor
  · rintro ⟨i, hi, hindex, rfl⟩
    obtain ⟨hroom, hlength⟩ := Nat.lt_min.mp hi
    obtain ⟨hin, rfl⟩ := (hfits.blockIndex_eq_iff hroom hc).mp hindex
    exact ⟨hin, List.getElem?_eq_getElem hlength⟩
  · rintro ⟨hin, hcell⟩
    obtain ⟨hlength, rfl⟩ := List.getElem?_eq_some_iff.mp hcell
    have hroom := offset_lt hin
    have hindex := (hfits.blockIndex_eq_iff hroom hc).mpr ⟨hin, rfl⟩
    exact ⟨_, Nat.lt_min.mpr ⟨hroom, hlength⟩, hindex, rfl⟩

theorem checked_eq (s : Screen) (x y w h : Nat) (t : Screen) :
    (do s.checkBlock x y w h; return t) =
      if s.Fits x y w h then .ok t else .error (.blockOutside x y w h s.width s.height) := by
  have hcheck : s.checkBlock x y w h =
      if s.Fits x y w h then .ok () else .error (.blockOutside x y w h s.width s.height) := rfl
  rw [hcheck]
  split <;> rfl

theorem perform_supply {a : Action} {b : Supply} (ha : a.supply s = some b) :
    s.perform a = if s.Fits b.x b.y b.w b.h then .ok (s.placeBlock b.x b.y b.w b.h b.cells)
      else .error (.blockOutside b.x b.y b.w b.h s.width s.height) := by
  cases a with
  | write x y text =>
    cases ha
    have hlength : (text.toList.map Char.toNat).length = text.length := by
      rw [List.length_map, String.length_toList]
    have hcells : (text.toList.map Char.toNat).map s.ink = text.toList.map fun c => s.ink c.toNat :=
      List.map_map
    rw [perform, write]
    dsimp only
    rw [hlength, writeBlock, hcells]
    exact checked_eq s x y text.length 1 _
  | writeBytes x y w h bytes =>
    cases ha
    have hcells : ((bytes.takeWhile (· ≠ 0)).map UInt8.toNat).map s.ink =
        (bytes.takeWhile (· ≠ 0)).map fun b => s.ink b.toNat :=
      List.map_map
    rw [perform, writeBytes, writeBlock, hcells]
    exact checked_eq s x y w h _
  | writeBlock x y w h cps => cases ha; exact checked_eq s x y w h _
  | blit x y w h cells => cases ha; exact checked_eq s x y w h _
  | fill x y w h cp => cases ha; exact checked_eq s x y w h _
  | _ => cases ha

/-! ### Loops over a block -/

/-- The index of the `i`-th place of a block, as it is computed. A division by zero has no value. -/
def blockIndex? (s : Screen) (x y w i : Nat) : Option Nat := do
  if w = 0 then none
  else s.index? (← word? (x + i % w)) (← word? (y + i / w))

/-- Stores cells into a block one by one, each at the index that its number gives. -/
def placeBlock? (s : Screen) (x y w h : Nat) (cells : List Cell) : Option Screen := do
  if w = 0 then return s
  let room ← word? (w * h)
  s.storeAll? ((cells.take room).mapIdx fun i c => (s.blockIndex? x y w i, c))

/-- Stores cells into a row one by one, from a first index on. -/
def placeRow? (s : Screen) (x y : Nat) (cells : List Cell) : Option Screen := do
  let start ← s.index? x y
  s.storeAll? (cells.mapIdx fun i c => (word? (start + i), c))

/-- Stores a cell into the columns of a row from `x` up to `right`, one by one. -/
def fillRow? (s : Screen) (x right row : Nat) (c : Cell) : Option Screen := do
  let start ← word? (row * s.width)
  s.storeAll? ((List.range' x (right - x)).map fun col => (word? (start + col), c))

/-- Stores a cell into all places of a block, row by row. -/
def fillBlock? (s : Screen) (x y w h : Nat) (c : Cell) : Option Screen := do
  let bottom ← word? (y + h)
  let right ← word? (x + w)
  (List.range' y (bottom - y)).foldlM (fun s row => s.fillRow? x right row c) s

/-- Draws into a block if it lies on the screen, which is checked in machine words. -/
def checked? (s : Screen) (x y w h : Nat) (draw : Option Screen) : Option (Except Fault Screen) :=
  if endsWithin x w s.width && endsWithin y h s.height then draw.map .ok
  else some (.error (.blockOutside x y w h s.width s.height))

/-- The actions that draw into a block, as they are computed. -/
def compute? (s : Screen) : Action → Option (Except Fault Screen)
  | .write x y text =>
    s.checked? x y text.length 1 (s.placeRow? x y (text.toList.map fun c => s.ink c.toNat))
  | .writeBytes x y w h bytes =>
    s.checked? x y w h
      (s.placeBlock? x y w h ((bytes.takeWhile (· ≠ 0)).map fun b => s.ink b.toNat))
  | .writeBlock x y w h cps => s.checked? x y w h (s.placeBlock? x y w h (cps.map s.ink))
  | .blit x y w h cells => s.checked? x y w h (s.placeBlock? x y w h cells)
  | .fill x y w h cp => s.checked? x y w h (s.fillBlock? x y w h (s.ink cp))
  | a => some (s.perform a)

theorem checked?_eq (hsize : Sized s) {draw : Option Screen}
    (hdraw : s.Fits x y w h → draw = some t) :
    s.checked? x y w h draw = some (if s.Fits x y w h then .ok t
      else .error (.blockOutside x y w h s.width s.height)) := by
  have hcheck : (endsWithin x w s.width && endsWithin y h s.height) = true ↔ s.Fits x y w h := by
    rw [Bool.and_eq_true, endsWithin_iff hsize.width_le, endsWithin_iff hsize.height_le, Fits]
  by_cases hfits : s.Fits x y w h
  · rw [checked?, if_pos (hcheck.mpr hfits), if_pos hfits, hdraw hfits]
    rfl
  · rw [checked?, if_neg (mt hcheck.mp hfits), if_neg hfits]

theorem Fits.index_lt_size (hw : WellFormed s) (hfits : s.Fits x y w h) {cx cy : Nat}
    (hin : InBlock x y w h cx cy) : s.index cx cy < s.target.size := by
  rw [hw.size_target]
  exact index_lt (hfits.contains hin)

theorem Fits.blockIndex?_eq (hw : WellFormed s) (hsize : Sized s) (hfits : s.Fits x y w h) {i : Nat}
    (hi : i < w * h) : s.blockIndex? x y w i = some (s.blockIndex x y w i) := by
  have hpos : w ≠ 0 := by
    rintro rfl
    rw [Nat.zero_mul] at hi
    cases hi
  have hc := hfits.contains (inBlock_of_lt (x := x) (y := y) hi)
  have hcol : x + i % w ≤ Snapshot.maxCount := Nat.le_trans (Nat.le_of_lt hc.1) hsize.width_le
  have hrow : y + i / w ≤ Snapshot.maxCount := Nat.le_trans (Nat.le_of_lt hc.2) hsize.height_le
  rw [blockIndex?, if_neg hpos, word?_of_le hcol, word?_of_le hrow]
  exact index?_eq hw hc

theorem Fits.placeBlock?_eq (hw : WellFormed s) (hsize : Sized s) (hfits : s.Fits x y w h)
    (cells : List Cell) : s.placeBlock? x y w h cells = some (s.placeBlock x y w h cells) := by
  obtain ⟨hright, hbottom⟩ := hfits
  have hroom : w * h ≤ Snapshot.maxCount :=
    Nat.le_trans (Nat.mul_le_mul (by omega) (by omega)) hw.area_le
  by_cases hzero : w = 0
  · subst hzero
    simp [placeBlock?, placeBlock]
  rw [placeBlock?, if_neg hzero, word?_of_le hroom]
  refine storeAll?_mapIdx (fun i hi => ?_) fun i hi => ?_
  · rw [List.length_take] at hi
    exact Fits.blockIndex?_eq hw hsize ⟨hright, hbottom⟩ (Nat.lt_min.mp hi).1
  · rw [List.length_take] at hi
    exact Fits.index_lt_size hw ⟨hright, hbottom⟩ (inBlock_of_lt (Nat.lt_min.mp hi).1)

theorem Fits.placeRow?_eq (hw : WellFormed s) {cells : List Cell}
    (hfits : s.Fits x y cells.length 1) :
    s.placeRow? x y cells = some (s.placeBlock x y cells.length 1 cells) := by
  obtain ⟨hright, hbottom⟩ := hfits
  have hin : ∀ i < cells.length, InBlock x y cells.length 1 (x + i) y := by
    intro i hi
    exact ⟨by omega, by omega, Nat.le_refl y, Nat.lt_succ_self y⟩
  -- The first index is behind the grid if the text is empty and begins at the right edge.
  have hstart : s.index x y ≤ s.width * s.height := by
    rw [index, Nat.add_comm]
    exact row_le hbottom (Nat.le_of_add_right_le hright)
  have hplace : ∀ i < cells.length, s.index x y + i = s.blockIndex x y cells.length i := by
    intro i hi
    rw [blockIndex, Nat.mod_eq_of_lt hi, Nat.div_eq_of_lt hi, Nat.add_zero, index, index,
      Nat.add_right_comm]
  have hlt : ∀ i < cells.length, s.blockIndex x y cells.length i < s.target.size := by
    intro i hi
    have hi' : i < cells.length * 1 := by rwa [Nat.mul_one]
    exact Fits.index_lt_size hw ⟨hright, hbottom⟩ (inBlock_of_lt hi')
  rw [placeRow?, index?_of_le hw hstart, placeBlock, Nat.mul_one, List.take_length]
  refine storeAll?_mapIdx (fun i hi => ?_) hlt
  rw [hplace i hi]
  refine word?_of_le (Nat.le_trans (Nat.le_of_lt (hlt i hi)) ?_)
  exact hw.size_target ▸ hw.area_le

/-- The places of a block, row by row. -/
def fillPlaces (s : Screen) (x y w h : Nat) (c : Cell) : List Placement :=
  (List.range' y h).flatMap fun row => (List.range' x w).map fun col => (s.index col row, c)

theorem Fits.drawn_fillPlaces (hw : WellFormed s) (hfits : s.Fits x y w h) (c : Cell) :
    Drawn s (s.paint (s.fillPlaces x y w h c))
      (Supply.cellAt ⟨x, y, w, h, List.replicate (w * h) c⟩) := by
  rw [Supply.cellAt_replicate]
  refine drawn_paint hw fun cx cy d hc => ?_
  simp only [fillPlaces, List.mem_flatMap, List.mem_map, List.mem_range'_1, Prod.mk.injEq,
    Option.ite_none_right_eq_some, Option.some.injEq]
  constructor
  · rintro ⟨row, ⟨hy, hyh⟩, col, ⟨hx, hxw⟩, hindex, rfl⟩
    have hin : InBlock x y w h col row := ⟨hx, hxw, hy, hyh⟩
    obtain ⟨rfl, rfl⟩ := index_inj (hfits.contains hin) hc hindex
    exact ⟨hin, rfl⟩
  · rintro ⟨⟨hx, hxw, hy, hyh⟩, rfl⟩
    exact ⟨cy, ⟨hy, hyh⟩, cx, ⟨hx, hxw⟩, rfl, rfl⟩

theorem Fits.fillRow?_eq (hw : WellFormed s) (hfits : s.Fits x y w h) {row : Nat}
    (hrow : y ≤ row ∧ row < y + h) (c : Cell) : s.fillRow? x (x + w) row c =
      some (s.paint ((List.range' x w).map fun col => (s.index col row, c))) := by
  have hlt : ∀ col ∈ List.range' x w, s.index col row < s.target.size := by
    intro col hcol
    obtain ⟨hx, hxw⟩ := List.mem_range'_1.mp hcol
    exact hfits.index_lt_size hw ⟨hx, hxw, hrow⟩
  have hstart : row * s.width ≤ Snapshot.maxCount := by
    rw [Nat.mul_comm]
    exact Nat.le_trans (Nat.mul_le_mul_left _ (by have := hfits.2; omega)) hw.area_le
  rw [fillRow?, word?_of_le hstart, Nat.add_sub_cancel_left]
  refine storeAll?_eq ?_ fun p hp => ?_
  · rw [List.map_map]
    refine List.map_congr_left fun col hcol => ?_
    have hindex : row * s.width + col ≤ Snapshot.maxCount := by
      rw [Nat.add_comm]
      exact Nat.le_trans (Nat.le_of_lt (hlt col hcol)) (hw.size_target ▸ hw.area_le)
    rw [word?_of_le hindex, Nat.add_comm]
    rfl
  · obtain ⟨col, hcol, rfl⟩ := List.mem_map.mp hp
    exact hlt col hcol

theorem Fits.fillBlock?_eq (hw : WellFormed s) (hsize : Sized s) (hfits : s.Fits x y w h)
    (c : Cell) :
    s.fillBlock? x y w h c = some (s.placeBlock x y w h (List.replicate (w * h) c)) := by
  have hright : x + w ≤ Snapshot.maxCount := Nat.le_trans hfits.1 hsize.width_le
  have hbottom : y + h ≤ Snapshot.maxCount := Nat.le_trans hfits.2 hsize.height_le
  have hround : ∀ row ∈ List.range' y h, ∀ qs, (s.paint qs).fillRow? x (x + w) row c =
      some ((s.paint qs).paint ((List.range' x w).map fun col => (s.index col row, c))) := by
    intro row hrow qs
    have hpainted : WellFormed (s.paint qs) := hw.edit (.paint s qs)
    exact Fits.fillRow?_eq hpainted hfits (List.mem_range'_1.mp hrow) c
  rw [fillBlock?, word?_of_le hbottom, word?_of_le hright]
  simp only [Option.bind_eq_bind, Option.bind_some, Nat.add_sub_cancel_left]
  rw [foldlM_paint (fun row => (List.range' x w).map fun col => (s.index col row, c)) hround]
  exact congrArg some ((hfits.drawn_fillPlaces hw c).unique (hfits.drawn_placeBlock hw _) hw)

theorem compute?_eq (hw : WellFormed s) (hsize : Sized s) {a : Action} {b : Supply}
    (ha : a.supply s = some b) : s.compute? a = some (s.perform a) := by
  rw [perform_supply ha]
  cases a with
  | write x y text =>
    cases ha
    refine checked?_eq hsize fun hfits => ?_
    have hlength : (text.toList.map fun c => s.ink c.toNat).length = text.length := by
      rw [List.length_map, String.length_toList]
    rw [← hlength] at hfits ⊢
    exact hfits.placeRow?_eq hw
  | writeBytes x y w h bytes =>
    cases ha
    exact checked?_eq hsize fun hfits => hfits.placeBlock?_eq hw hsize _
  | writeBlock x y w h cps =>
    cases ha
    exact checked?_eq hsize fun hfits => hfits.placeBlock?_eq hw hsize _
  | blit x y w h cells =>
    cases ha
    exact checked?_eq hsize fun hfits => hfits.placeBlock?_eq hw hsize _
  | fill x y w h cp =>
    cases ha
    exact checked?_eq hsize fun hfits => hfits.fillBlock?_eq hw hsize _
  | _ => cases ha

/-! ### All or nothing -/

/-- An action that draws into a block is refused, with the screen as it was, exactly if the block
does not lie on the screen. Otherwise each place of the block for which a cell is supplied shows
that cell, and nothing else changes; a code point is taken modulo 2^21 and in the drawing style.
Computing the places one by one in machine words, no number is too large and no index out of range,
and it comes to the same. -/
theorem draws_supply_or_refuses (h : Reachable s) (hsize : Sized s) {a : Action} {b : Supply}
    (ha : a.supply s = some b) :
    s.compute? a = some (s.perform a) ∧
    (∀ cp, (s.ink cp).style = s.style ∧ (s.ink cp).codePoint = cp % 2 ^ 21) ∧
    (s.Fits b.x b.y b.w b.h → ∃ t, s.perform a = .ok t ∧ Drawn s t b.cellAt) ∧
    (¬s.Fits b.x b.y b.w b.h →
      s.perform a = .error (.blockOutside b.x b.y b.w b.h s.width s.height) ∧
      s.call (.perform a) = ([], s)) := by
  have hw := reachable_wellFormed h
  have hperform := perform_supply ha
  refine ⟨compute?_eq hw hsize ha, (reachable_styled h).ink, fun hfits => ?_, fun hfits => ?_⟩
  · rw [if_pos hfits] at hperform
    exact ⟨_, hperform, hfits.drawn_placeBlock hw b.cells⟩
  · rw [if_neg hfits] at hperform
    exact ⟨hperform, call_of_error hperform⟩

/-- Three of five bytes are written into a block at the right edge, while a cell is split. -/
theorem draws_supply_of_bytes : ∃ s₀ s t, create 3 2 .defaultStyle = .ok s₀ ∧
    (s₀.run [.flush 5 0, .perform (.setAttribute .bold true)]).2 = s ∧ Sized s ∧ s.Fits 1 0 2 2 ∧
    s.perform (.writeBytes 1 0 2 2 [0x41, 0x42, 0x43, 0, 0x44]) = .ok t ∧
    Drawn s t (Supply.cellAt ⟨1, 0, 2, 2, [s.ink 0x41, s.ink 0x42, s.ink 0x43]⟩) := by
  obtain ⟨s₀, hnew, hsize, hfits⟩ : ∃ s₀, create 3 2 .defaultStyle = .ok s₀ ∧
      Sized (s₀.run [.flush 5 0, .perform (.setAttribute .bold true)]).2 ∧
      (s₀.run [.flush 5 0, .perform (.setAttribute .bold true)]).2.Fits 1 0 2 2 :=
    ⟨_, rfl, ⟨by decide +kernel, by decide +kernel⟩, by decide +kernel⟩
  have hreachable := (Reachable.create hnew).run [.flush 5 0, .perform (.setAttribute .bold true)]
  obtain ⟨-, -, hdraws, -⟩ := draws_supply_or_refuses hreachable hsize
    (rfl : Action.supply _ (.writeBytes 1 0 2 2 [0x41, 0x42, 0x43, 0, 0x44]) = some _)
  obtain ⟨t, hperform, hdrawn⟩ := hdraws hfits
  exact ⟨s₀, _, t, hnew, rfl, hsize, hfits, hperform, hdrawn⟩

end Screen
end RemoteScreen
