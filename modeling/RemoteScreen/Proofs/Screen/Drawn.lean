import RemoteScreen.Proofs.Screen.WellFormed

/-! What drawing leaves behind, place by place (`Drawn`), and drawing as it is computed. A number
that is no machine word, a place out of range and a loop that does not end have no value; loops that
paint within the grid have one, and paint the same cells. -/

namespace RemoteScreen
namespace Screen

variable {s t u : Screen} {ps : List Placement}

/-! ### Places -/

theorem contains_of_lt {i : Nat} (h : i < s.width * s.height) :
    s.Contains (i % s.width) (i / s.width) := by
  have hpos : 0 < s.width := Nat.pos_of_mul_pos_right (Nat.zero_lt_of_lt h)
  exact ⟨Nat.mod_lt _ hpos, Nat.div_lt_of_lt_mul h⟩

theorem index_mod_div (s : Screen) (i : Nat) : s.index (i % s.width) (i / s.width) = i :=
  Nat.mod_add_div' i s.width

theorem index_inj {x y x' y' : Nat} (hc : s.Contains x y) (hc' : s.Contains x' y')
    (h : s.index x y = s.index x' y') : x = x' ∧ y = y' := by
  constructor
  · rw [← index_mod hc, h, index_mod hc']
  · rw [← index_div hc, h, index_div hc']

/-- Two grids of one size that show the same in all places are the same. -/
theorem target_eq (hwidth : t.width = s.width) (hheight : t.height = s.height)
    (hsize : t.target.size = s.target.size) (hs : s.target.size = s.width * s.height)
    (hget : ∀ x y, s.Contains x y → t.get? x y = s.get? x y) : t.target = s.target := by
  refine Array.ext_getElem? fun i => ?_
  by_cases hi : i < s.width * s.height
  · have hc := contains_of_lt hi
    have hc' : t.Contains (i % s.width) (i / s.width) := by
      rwa [Contains, hwidth, hheight]
    have hindex : t.index (i % s.width) (i / s.width) = i := by
      rw [index, hwidth]
      exact s.index_mod_div i
    have hsame := hget _ _ hc
    rwa [get?_of_contains hc', get?_of_contains hc, hindex, index_mod_div] at hsame
  · have hout : s.target.size ≤ i := hs ▸ Nat.le_of_not_lt hi
    rw [Array.getElem?_eq_none (hsize ▸ hout), Array.getElem?_eq_none hout]

/-- The screen `t` is `s` but for the given cells, which should show in their places. -/
structure Drawn (s t : Screen) (cells : Nat → Nat → Option Cell) : Prop where
  frame : t = { s with target := t.target }
  size : t.target.size = s.target.size
  get? : ∀ x y, s.Contains x y → t.get? x y = (cells x y).or (s.get? x y)

namespace Drawn

variable {cells : Nat → Nat → Option Cell}

theorem width_eq (h : Drawn s t cells) : t.width = s.width := by
  rw [h.frame]

theorem height_eq (h : Drawn s t cells) : t.height = s.height := by
  rw [h.frame]

theorem contains_iff (h : Drawn s t cells) {x y : Nat} : t.Contains x y ↔ s.Contains x y := by
  rw [Contains, Contains, h.width_eq, h.height_eq]

/-- What is drawn determines the screen. -/
theorem unique (ht : Drawn s t cells) (hu : Drawn s u cells) (hw : WellFormed s) : t = u := by
  have hsize : u.target.size = u.width * u.height := by
    rw [hu.size, hu.width_eq, hu.height_eq, hw.size_target]
  have htarget : t.target = u.target := by
    refine target_eq (ht.width_eq.trans hu.width_eq.symm) (ht.height_eq.trans hu.height_eq.symm)
      (ht.size.trans hu.size.symm) hsize fun x y hc => ?_
    have hplace := hu.contains_iff.mp hc
    exact (ht.get? x y hplace).trans (hu.get? x y hplace).symm
  rw [ht.frame, hu.frame, htarget]

theorem refl (s : Screen) : Drawn s s fun _ _ => none :=
  ⟨rfl, rfl, fun _ _ _ => rfl⟩

end Drawn

theorem getElem?_target_paint_of_mem {i : Nat} {c : Cell} (hi : i < s.target.size)
    (hmem : (i, c) ∈ ps) (hsame : ∀ p ∈ ps, p.1 = i → p.2 = c) :
    (s.paint ps).target[i]? = some c := by
  induction ps generalizing s with
  | nil => cases hmem
  | cons p ps ih =>
    by_cases hlater : ∃ q ∈ ps, q.1 = i
    · obtain ⟨q, hq, rfl⟩ := hlater
      obtain rfl := hsame q (List.mem_cons_of_mem _ hq) rfl
      rw [← List.singleton_append, paint_append]
      refine ih ?_ hq fun r hr => hsame r (List.mem_cons_of_mem _ hr)
      rwa [size_target_paint]
    · obtain rfl | hq := List.mem_cons.mp hmem
      · have hlast : (s.paint ([] ++ (i, c) :: ps)).target[i]? = some c :=
          getElem?_target_paint_append_cons hi fun q hq hqi => hlater ⟨q, hq, hqi⟩
        exact hlast
      · exact absurd ⟨_, hq, rfl⟩ hlater

/-- Painting draws the cells that are placed on the grid, if no two of them differ in one place. -/
theorem drawn_paint (hw : WellFormed s) {cells : Nat → Nat → Option Cell}
    (h : ∀ x y c, s.Contains x y → ((s.index x y, c) ∈ ps ↔ cells x y = some c)) :
    Drawn s (s.paint ps) cells := by
  refine ⟨s.paint_eq ps, size_target_paint s ps, fun x y hc => ?_⟩
  have hplaced : ∀ p ∈ ps, p.1 = s.index x y → cells x y = some p.2 := by
    rintro ⟨_, c⟩ hp rfl
    exact (h x y c hc).mp hp
  rw [get?_of_contains (s := s.paint ps) hc, get?_of_contains hc]
  cases hcell : cells x y with
  | none =>
    refine getElem?_target_paint_of_forall_ne fun p hp hi => ?_
    rw [hplaced p hp hi] at hcell
    cases hcell
  | some c =>
    refine getElem?_target_paint_of_mem ?_ ((h x y c hc).mpr hcell) fun p hp hi => ?_
    · rw [hw.size_target]
      exact index_lt hc
    · exact Option.some.inj ((hplaced p hp hi).symm.trans hcell)

/-! ### Machine words -/

/-- A machine word, unless the number is too large for one. -/
def word? (n : Nat) : Option Nat :=
  if n ≤ Snapshot.maxCount then some n else none

/-- Both extents of the screen are machine words. -/
structure Sized (s : Screen) : Prop where
  width_le : s.width ≤ Snapshot.maxCount
  height_le : s.height ≤ Snapshot.maxCount

/-- Whether a range that begins at `start` ends within a limit. An end that is no machine word does
not. -/
def endsWithin (start extent limit : Nat) : Bool :=
  (word? (start + extent)).any (· ≤ limit)

theorem word?_of_le {n : Nat} (h : n ≤ Snapshot.maxCount) : word? n = some n :=
  if_pos h

theorem endsWithin_iff {start extent limit : Nat} (hlimit : limit ≤ Snapshot.maxCount) :
    endsWithin start extent limit = true ↔ start + extent ≤ limit := by
  unfold endsWithin word?
  split
  · simp
  next h => simp only [Option.any_none, Bool.false_eq_true, false_iff]; omega

theorem WellFormed.area_le (h : WellFormed s) : s.width * s.height ≤ Snapshot.maxCount := by
  have haddressable : s.width * s.height * Cell.byteCount ≤ maxObjectBytes := h.addressable
  simp only [Cell.byteCount, maxObjectBytes, Snapshot.maxCount] at haddressable ⊢
  omega

/-- A grid with a place in it is far from the limits of machine words. -/
theorem WellFormed.extents_lt (h : WellFormed s) {x y : Nat} (hc : s.Contains x y) :
    s.width < 0x2000000000000000 ∧ s.height < 0x2000000000000000 := by
  have haddressable : s.width * s.height * Cell.byteCount ≤ maxObjectBytes := h.addressable
  have hwidth : s.width ≤ s.width * s.height := Nat.le_mul_of_pos_right _ (Nat.zero_lt_of_lt hc.2)
  have hheight : s.height ≤ s.width * s.height := Nat.le_mul_of_pos_left _ (Nat.zero_lt_of_lt hc.1)
  simp only [Cell.byteCount, maxObjectBytes] at haddressable
  omega

theorem row_le {row count : Nat} (hrow : row < s.height) (hcount : count ≤ s.width) :
    row * s.width + count ≤ s.width * s.height := by
  calc row * s.width + count ≤ row * s.width + s.width := Nat.add_le_add_left hcount _
    _ = s.width * (row + 1) := by rw [Nat.mul_add_one, Nat.mul_comm]
    _ ≤ s.width * s.height := Nat.mul_le_mul_left _ hrow

/-- The index of a place, as it is computed. -/
def index? (s : Screen) (x y : Nat) : Option Nat := do
  word? (x + (← word? (y * s.width)))

theorem index?_of_le (hw : WellFormed s) {x y : Nat} (h : s.index x y ≤ s.width * s.height) :
    s.index? x y = some (s.index x y) := by
  have hindex : x + y * s.width ≤ Snapshot.maxCount := Nat.le_trans h hw.area_le
  rw [index?, word?_of_le (Nat.le_of_add_left_le hindex)]
  exact word?_of_le hindex

theorem index?_eq (hw : WellFormed s) {x y : Nat} (hc : s.Contains x y) :
    s.index? x y = some (s.index x y) :=
  index?_of_le hw (Nat.le_of_lt (index_lt hc))

/-! ### Loops -/

/-- Stores a cell at an index that has been computed. -/
def store? (s : Screen) (i : Option Nat) (c : Cell) : Option Screen := do
  let i ← i
  if i < s.target.size then some (s.paint [(i, c)]) else none

/-- Stores cells one after another. -/
def storeAll? (s : Screen) (cells : List (Option Nat × Cell)) : Option Screen :=
  cells.foldlM (fun s p => s.store? p.1 p.2) s

theorem store?_eq {i : Nat} (h : i < s.target.size) (c : Cell) :
    s.store? (some i) c = some (s.paint [(i, c)]) :=
  if_pos h

theorem store?_place (hw : WellFormed s) {cx cy : Nat} (hc : s.Contains cx cy) (c : Cell)
    (qs : List Placement) : (s.paint qs).store? ((s.paint qs).index? cx cy) c =
      some ((s.paint qs).paint [(s.index cx cy, c)]) := by
  have hpainted : WellFormed (s.paint qs) := hw.edit (.paint s qs)
  have hplace : (s.paint qs).Contains cx cy := hc
  rw [index?_eq hpainted hplace]
  refine store?_eq ?_ c
  rw [hpainted.size_target]
  exact index_lt hplace

/-- A loop paints what its rounds paint. -/
theorem foldlM_paint {α : Type} {rounds : List α} {f : Screen → α → Option Screen}
    (places : α → List Placement)
    (h : ∀ a ∈ rounds, ∀ qs, f (s.paint qs) a = some ((s.paint qs).paint (places a))) :
    rounds.foldlM f s = some (s.paint (rounds.flatMap places)) := by
  have hfrom : ∀ qs, rounds.foldlM f (s.paint qs) =
      some (s.paint (qs ++ rounds.flatMap places)) := by
    induction rounds with
    | nil =>
      intro qs
      rw [List.flatMap_nil, List.append_nil]
      rfl
    | cons a rounds ih =>
      intro qs
      rw [List.foldlM_cons, h a List.mem_cons_self, ← paint_append, List.flatMap_cons,
        ← List.append_assoc]
      exact ih (fun b hb => h b (List.mem_cons_of_mem _ hb)) _
  exact hfrom []

theorem storeAll?_eq {cells : List (Option Nat × Cell)}
    (hcells : cells = ps.map fun p => (some p.1, p.2)) (h : ∀ p ∈ ps, p.1 < s.target.size) :
    s.storeAll? cells = some (s.paint ps) := by
  rw [storeAll?, hcells, List.foldlM_map, foldlM_paint (fun p => [p]) fun p hp qs => ?_]
  · rw [List.flatMap_singleton']
  · exact store?_eq (by rw [size_target_paint]; exact h p hp) p.2

theorem storeAll?_mapIdx {cells : List Cell} {index? : Nat → Option Nat} {index : Nat → Nat}
    (hindex : ∀ i < cells.length, index? i = some (index i))
    (h : ∀ i < cells.length, index i < s.target.size) :
    s.storeAll? (cells.mapIdx fun i c => (index? i, c)) =
      some (s.paint (cells.mapIdx fun i c => (index i, c))) := by
  refine storeAll?_eq (List.mapIdx_eq_iff.mpr fun i => ?_) fun p hp => ?_
  · rw [List.getElem?_map, List.getElem?_mapIdx, Option.map_map]
    cases hcell : cells[i]? with
    | none => rfl
    | some c =>
      obtain ⟨hi, -⟩ := List.getElem?_eq_some_iff.mp hcell
      rw [Option.map_some, Option.map_some, hindex i hi]
      rfl
  · obtain ⟨i, hi, rfl⟩ := List.mem_mapIdx.mp hp
    exact h i hi

end Screen
end RemoteScreen
