import Mathlib.Tactic.Choose
import RemoteScreen.Proofs.Screen.Blocks

/-! Drawing the border of a block. The first and the last row are walked column by column, the rows
between in steps from one edge to the other; what the walks visit is the border and nothing else. -/

namespace RemoteScreen
namespace Screen

variable {s t : Screen} {x y w h : Nat}

/-- The place in column `cx` of row `cy` lies in the block, in its first or last column or row. -/
def OnBorder (x y w h cx cy : Nat) : Prop :=
  InBlock x y w h cx cy ∧ (cx = x ∨ cx + 1 = x + w ∨ cy = y ∨ cy + 1 = y + h)

instance (x y w h cx cy : Nat) : Decidable (OnBorder x y w h cx cy) :=
  inferInstanceAs (Decidable (_ ∧ _))

/-! ### Places of a border -/

theorem onBorder_offset_iff {cx cy : Nat} (hin : InBlock x y w h cx cy) :
    onBorder w h ((cy - y) * w + (cx - x)) = true ↔ OnBorder x y w h cx cy := by
  obtain ⟨hcol, hrow⟩ := (eq_offset_iff (offset_lt hin)).mpr ⟨hin, rfl⟩
  obtain ⟨hx, hxw, hy, hyh⟩ := hin
  simp only [onBorder, OnBorder, InBlock, Bool.or_eq_true, decide_eq_true_eq]
  omega

theorem not_onBorder_of_empty (hempty : w = 0 ∨ h = 0) (cx cy : Nat) :
    ¬OnBorder x y w h cx cy := by
  simp only [OnBorder, InBlock]
  omega

theorem onBorder_iff_inBlock (hthin : w ≤ 2 ∨ h ≤ 2) {cx cy : Nat} :
    OnBorder x y w h cx cy ↔ InBlock x y w h cx cy := by
  simp only [OnBorder, InBlock]
  omega

/-- The screen with the border of a block drawn. -/
def placeBorder (s : Screen) (x y w h : Nat) (c : Cell) : Screen :=
  s.paint (((List.range (w * h)).filter (onBorder w h)).map fun i => (s.blockIndex x y w i, c))

theorem Fits.drawn_placeBorder (hw : WellFormed s) (hfits : s.Fits x y w h) (c : Cell) :
    Drawn s (s.placeBorder x y w h c)
      (fun cx cy => if OnBorder x y w h cx cy then some c else none) := by
  refine drawn_paint hw fun cx cy d hc => ?_
  simp only [List.mem_map, List.mem_filter, List.mem_range, Prod.mk.injEq,
    Option.ite_none_right_eq_some, Option.some.injEq]
  constructor
  · rintro ⟨i, ⟨hi, hborder⟩, hindex, rfl⟩
    obtain ⟨hin, rfl⟩ := (hfits.blockIndex_eq_iff hi hc).mp hindex
    exact ⟨(onBorder_offset_iff hin).mp hborder, rfl⟩
  · rintro ⟨hborder, rfl⟩
    have hin := hborder.1
    have hindex := (hfits.blockIndex_eq_iff (offset_lt hin) hc).mpr ⟨hin, rfl⟩
    exact ⟨_, ⟨offset_lt hin, (onBorder_offset_iff hin).mpr hborder⟩, hindex, rfl⟩

theorem Fits.placeBorder_of_empty (hw : WellFormed s) (hfits : s.Fits x y w h)
    (hempty : w = 0 ∨ h = 0) (c : Cell) : s.placeBorder x y w h c = s := by
  have hdrawn := hfits.drawn_placeBorder hw c
  simp only [not_onBorder_of_empty hempty, if_false] at hdrawn
  exact hdrawn.unique (.refl s) hw

theorem Fits.placeBorder_of_thin (hw : WellFormed s) (hfits : s.Fits x y w h)
    (hthin : w ≤ 2 ∨ h ≤ 2) (c : Cell) :
    s.placeBorder x y w h c = s.placeBlock x y w h (List.replicate (w * h) c) := by
  have hborder := hfits.drawn_placeBorder hw c
  simp only [onBorder_iff_inBlock hthin, ← Supply.cellAt_replicate] at hborder
  exact hborder.unique (hfits.drawn_placeBlock hw _) hw

/-! ### The walk -/

/-- Stores a cell into every `step`-th column of a row from `col` up to `right`. Without a step this
does not end. -/
def walkRow? (c : Cell) (row right step : Nat) (s : Screen) (col : Nat) : Option Screen :=
  if col < right then
    if step = 0 then none
    else do
      let t ← s.store? (s.index? col row) c
      let _ ← word? (col + step)
      walkRow? c row right step t (col + step)
  else some s
termination_by right - col

/-- How far a row's places are apart on the border of a block that ends above `bottom`. -/
def stride (y w bottom row : Nat) : Nat :=
  if row = y ∨ row = bottom - 1 then 1 else max (w - 1) 1

/-- Walks the rows of a block one by one. -/
def walkBorder? (s : Screen) (x y w h : Nat) (c : Cell) : Option Screen := do
  if w = 0 ∨ h = 0 then return s
  let bottom ← word? (y + h)
  let right ← word? (x + w)
  (List.range' y (bottom - y)).foldlM
    (fun s row => walkRow? c row right (stride y w bottom row) s x) s

/-- Draws the border of a block, as it is computed. -/
def rect? (s : Screen) (x y w h cp : Nat) : Option (Except Fault Screen) :=
  s.checked? x y w h (s.walkBorder? x y w h (s.ink cp))

theorem stepped_iff {col right : Nat} (hcol : col < right) (step cx : Nat) :
    (cx = col ∨ ∃ k, cx = col + step + k * step ∧ cx < right) ↔
      ∃ k, cx = col + k * step ∧ cx < right := by
  constructor
  · rintro (rfl | ⟨k, rfl, hk⟩)
    · exact ⟨0, by rw [Nat.zero_mul, Nat.add_zero], hcol⟩
    · exact ⟨k + 1, by rw [Nat.succ_mul, Nat.add_assoc, Nat.add_comm step], hk⟩
  · rintro ⟨k, rfl, hk⟩
    cases k with
    | zero => exact Or.inl (by rw [Nat.zero_mul, Nat.add_zero])
    | succ k => exact Or.inr ⟨k, by rw [Nat.succ_mul, Nat.add_assoc, Nat.add_comm step], hk⟩

/-- The columns that a walk visits are whole steps from its first one. -/
theorem exists_walk (hw : WellFormed s) {row right step : Nat} (hrow : row < s.height)
    (hright : right ≤ s.width) (hstep : 0 < step) (hword : s.width + step ≤ Snapshot.maxCount)
    (c : Cell) (col : Nat) :
    ∃ cols : List Nat, (∀ cx, cx ∈ cols ↔ ∃ k, cx = col + k * step ∧ cx < right) ∧
      ∀ qs, walkRow? c row right step (s.paint qs) col =
        some ((s.paint qs).paint (cols.map fun cx => (s.index cx row, c))) := by
  induction hleft : right - col using Nat.strongRecOn generalizing col with
  | ind left ih =>
    by_cases hcol : col < right
    · obtain ⟨cols, hmem, hwalk⟩ := ih (right - (col + step)) (by omega) (col + step) rfl
      have hc : s.Contains col row := ⟨Nat.lt_of_lt_of_le hcol hright, hrow⟩
      have hnext : col + step ≤ Snapshot.maxCount :=
        Nat.le_trans (Nat.add_le_add_right (Nat.le_of_lt hc.1) step) hword
      refine ⟨col :: cols, fun cx => ?_, fun qs => ?_⟩
      · rw [List.mem_cons, hmem, stepped_iff hcol]
      · rw [walkRow?, if_pos hcol, if_neg (Nat.ne_of_gt hstep), store?_place hw hc,
          word?_of_le hnext]
        simp only [Option.bind_eq_bind, Option.bind_some, List.map_cons]
        rw [← paint_append, hwalk, paint_append, ← paint_append, List.singleton_append]
    · refine ⟨[], fun cx => ?_, fun qs => ?_⟩
      · simp only [List.not_mem_nil, false_iff]
        rintro ⟨k, rfl, hk⟩
        omega
      · rw [walkRow?, if_neg hcol]
        rfl

theorem stride_pos (y w bottom row : Nat) : 0 < stride y w bottom row := by
  unfold stride
  split <;> omega

theorem stride_le (y w bottom row : Nat) : stride y w bottom row ≤ w + 1 := by
  unfold stride
  split <;> omega

/-- The places of a row on the border are the ones that a walk visits. -/
theorem walked_iff {row : Nat} (hrow : y ≤ row ∧ row < y + h) (cx : Nat) :
    (∃ k, cx = x + k * stride y w (y + h) row ∧ cx < x + w) ↔ OnBorder x y w h cx row := by
  unfold stride OnBorder InBlock
  by_cases hedge : row = y ∨ row = y + h - 1
  · rw [if_pos hedge]
    constructor
    · rintro ⟨k, rfl, hk⟩
      omega
    · rintro ⟨⟨hx, hxw, -⟩, -⟩
      exact ⟨cx - x, by omega, hxw⟩
  · rw [if_neg hedge]
    constructor
    · rintro ⟨k, rfl, hk⟩
      -- Two steps lead out of the block.
      rcases k with _ | _ | k
      · omega
      · omega
      · have htwo : 2 * max (w - 1) 1 ≤ (k + 1 + 1) * max (w - 1) 1 :=
          Nat.mul_le_mul_right _ (Nat.le_add_left 2 k)
        omega
    · rintro ⟨⟨hx, hxw, -⟩, hside⟩
      by_cases hleft : cx = x
      · exact ⟨0, by omega, hxw⟩
      · exact ⟨1, by omega, hxw⟩

theorem Fits.exists_walk (hw : WellFormed s) (hfits : s.Fits x y w h) (hpos : 0 < w) (c : Cell)
    {row : Nat} (hrow : y ≤ row ∧ row < y + h) :
    ∃ cols : List Nat, (∀ cx, cx ∈ cols ↔ OnBorder x y w h cx row) ∧
      ∀ qs, walkRow? c row (x + w) (stride y w (y + h) row) (s.paint qs) x =
        some ((s.paint qs).paint (cols.map fun cx => (s.index cx row, c))) := by
  have hword : s.width + stride y w (y + h) row ≤ Snapshot.maxCount := by
    have hcorner : InBlock x y w h x row := ⟨Nat.le_refl x, Nat.lt_add_of_pos_right hpos, hrow⟩
    have hextents := hw.extents_lt (hfits.contains hcorner)
    have hstride := stride_le y w (y + h) row
    have hright := hfits.1
    simp only [Snapshot.maxCount]
    omega
  obtain ⟨cols, hmem, hwalk⟩ := Screen.exists_walk hw (Nat.lt_of_lt_of_le hrow.2 hfits.2) hfits.1
    (stride_pos y w (y + h) row) hword c x
  exact ⟨cols, fun cx => (hmem cx).trans (walked_iff hrow cx), hwalk⟩

/-- Rows that are painted in the columns on the border make up the border. -/
theorem Fits.drawn_rows (hw : WellFormed s) (hfits : s.Fits x y w h) (c : Cell)
    {cols : Nat → List Nat}
    (hcols : ∀ row, y ≤ row ∧ row < y + h → ∀ cx, cx ∈ cols row ↔ OnBorder x y w h cx row) :
    Drawn s (s.paint ((List.range' y h).flatMap fun row =>
        (cols row).map fun cx => (s.index cx row, c)))
      (fun cx cy => if OnBorder x y w h cx cy then some c else none) := by
  refine drawn_paint hw fun cx cy d hc => ?_
  simp only [List.mem_flatMap, List.mem_map, List.mem_range'_1, Prod.mk.injEq,
    Option.ite_none_right_eq_some, Option.some.injEq]
  constructor
  · rintro ⟨row, hrow, col, hcol, hindex, rfl⟩
    have hborder := (hcols row hrow col).mp hcol
    obtain ⟨rfl, rfl⟩ := index_inj (hfits.contains hborder.1) hc hindex
    exact ⟨hborder, rfl⟩
  · rintro ⟨hborder, rfl⟩
    obtain ⟨-, -, hrow⟩ := hborder.1
    exact ⟨cy, hrow, cx, (hcols cy hrow cx).mpr hborder, rfl, rfl⟩

theorem Fits.walkBorder?_eq (hw : WellFormed s) (hsize : Sized s) (hfits : s.Fits x y w h)
    (c : Cell) : s.walkBorder? x y w h c = some (s.placeBorder x y w h c) := by
  by_cases hempty : w = 0 ∨ h = 0
  · rw [walkBorder?, if_pos hempty, hfits.placeBorder_of_empty hw hempty]
    rfl
  have hpos : 0 < w := Nat.pos_of_ne_zero fun hzero => hempty (Or.inl hzero)
  have hright : x + w ≤ Snapshot.maxCount := Nat.le_trans hfits.1 hsize.width_le
  have hbottom : y + h ≤ Snapshot.maxCount := Nat.le_trans hfits.2 hsize.height_le
  choose! cols hcols hwalk using
    fun row (hrow : y ≤ row ∧ row < y + h) => hfits.exists_walk hw hpos c hrow
  rw [walkBorder?, if_neg hempty, word?_of_le hbottom, word?_of_le hright]
  simp only [Option.bind_eq_bind, Option.bind_some, Nat.add_sub_cancel_left]
  rw [foldlM_paint _ fun row hrow => hwalk row (List.mem_range'_1.mp hrow)]
  exact congrArg some ((hfits.drawn_rows hw c hcols).unique (hfits.drawn_placeBorder hw c) hw)

/-! ### The border -/

/-- A border is refused, with the screen as it was, exactly if its block does not lie on the screen.
Otherwise each place in the first or last column or row of the block shows the code point, taken
modulo 2^21, in the drawing style, and nothing else changes: of an empty block nothing, of a thin one
all places. The walk along the border ends, no number in it is too large and no index out of range,
and it comes to the same. -/
theorem rect_draws_border_or_refuses (hr : Reachable s) (hsize : Sized s) (x y w h cp : Nat) :
    s.rect? x y w h cp = some (s.rect x y w h cp) ∧
    ((s.ink cp).style = s.style ∧ (s.ink cp).codePoint = cp % 2 ^ 21) ∧
    (s.Fits x y w h → ∃ t, s.rect x y w h cp = .ok t ∧
      Drawn s t (fun cx cy => if OnBorder x y w h cx cy then some (s.ink cp) else none) ∧
      (w = 0 ∨ h = 0 → t = s) ∧ (w ≤ 2 ∨ h ≤ 2 → s.fill x y w h cp = .ok t)) ∧
    (¬s.Fits x y w h →
      s.rect x y w h cp = .error (.blockOutside x y w h s.width s.height) ∧
      s.call (.perform (.rect x y w h cp)) = ([], s)) := by
  have hw := reachable_wellFormed hr
  have hrect : s.rect x y w h cp = if s.Fits x y w h then .ok (s.placeBorder x y w h (s.ink cp))
      else .error (.blockOutside x y w h s.width s.height) := checked_eq s x y w h _
  refine ⟨?_, (reachable_styled hr).ink cp,
    fun hfits => ⟨_, hrect.trans (if_pos hfits), ?_, fun hempty => ?_, fun hthin => ?_⟩,
    fun hfits => ?_⟩
  · rw [hrect]
    exact checked?_eq hsize fun hfits => hfits.walkBorder?_eq hw hsize _
  · exact hfits.drawn_placeBorder hw _
  · exact hfits.placeBorder_of_empty hw hempty _
  · exact (perform_supply (a := .fill x y w h cp) rfl).trans
      ((if_pos hfits).trans (congrArg Except.ok (hfits.placeBorder_of_thin hw hthin _).symm))
  · rw [if_neg hfits] at hrect
    exact ⟨hrect, call_of_error hrect⟩

/-- A border along the right edge keeps the cell inside it; one column on, nothing is drawn. -/
theorem rect_draws_border_at_edge : ∃ s t, create 4 3 .defaultStyle = .ok s ∧ Sized s ∧
    s.Fits 1 0 3 3 ∧ s.rect 1 0 3 3 0x2A = .ok t ∧ t.get? 2 1 = s.get? 2 1 ∧
    t.get? 3 1 = some (s.ink 0x2A) ∧ (s.ink 0x2A).codePoint = 0x2A ∧ ¬s.Fits 2 0 3 3 ∧
    s.call (.perform (.rect 2 0 3 3 0x2A)) = ([], s) := by
  obtain ⟨s, hnew, hsize, hfits, hunfit⟩ : ∃ s, create 4 3 .defaultStyle = .ok s ∧ Sized s ∧
      s.Fits 1 0 3 3 ∧ ¬s.Fits 2 0 3 3 :=
    ⟨_, rfl, ⟨by decide, by decide⟩, by decide, by decide⟩
  obtain ⟨-, ⟨-, hcode⟩, hdraws, -⟩ := rect_draws_border_or_refuses (.create hnew) hsize 1 0 3 3 0x2A
  obtain ⟨t, hrect, hdrawn, -⟩ := hdraws hfits
  obtain ⟨-, -, -, hrefused⟩ := rect_draws_border_or_refuses (.create hnew) hsize 2 0 3 3 0x2A
  have hinside : s.Contains 2 1 := hfits.contains (by decide)
  have hedge : s.Contains 3 1 := hfits.contains (by decide)
  exact ⟨s, t, hnew, hsize, hfits, hrect, hdrawn.get? 2 1 hinside, hdrawn.get? 3 1 hedge, hcode,
    hunfit, (hrefused hunfit).2⟩

end Screen
end RemoteScreen
