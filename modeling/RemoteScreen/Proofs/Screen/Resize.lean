import RemoteScreen.Proofs.Screen.Drawn
import RemoteScreen.Proofs.Screen.Sequences
import RemoteScreen.Proofs.Screen.Style

/-! Changes of size. A place that lies in both grids keeps its cell, and after a chain of changes
that is a place that lies in all of them; every other place is blank in the default style. Whatever
was sent, the next pass sends the whole grid, but first the tail of a split cell. Rows that are
copied from one grid to the other come to the same. -/

namespace RemoteScreen
namespace Screen

variable {s t : Screen} {width height x y : Nat} {sizes : List (Nat × Nat)}

/-! ### Places -/

theorem exists_cell (hw : WellFormed s) (hc : s.Contains x y) : ∃ c, s.get? x y = some c := by
  have hlt : s.index x y < s.target.size := hw.size_target ▸ index_lt hc
  exact ⟨s.target[s.index x y], (get?_of_contains hc).trans (Array.getElem?_eq_getElem hlt)⟩

theorem get?_of_not_contains (hc : ¬s.Contains x y) : s.get? x y = none :=
  if_neg hc

theorem contains_reshape : (s.reshape width height).Contains x y ↔ x < width ∧ y < height := by
  obtain ⟨hwidth, hheight⟩ := s.size_reshape width height
  rw [Contains, hwidth, hheight]

/-- The cells of the screen in another size. -/
def resizedTarget (s : Screen) (width height : Nat) : Array Cell :=
  Array.ofFn fun i : Fin (width * height) =>
    (s.get? (i % width) (i / width)).getD (blank s.defaultStyle)

theorem reshape_of_ne (hne : ¬(s.width = width ∧ s.height = height)) :
    s.reshape width height = { s with
      width, height
      shown := Array.replicate (width * height) (blank s.defaultStyle)
      target := s.resizedTarget width height
      position := 0
      peer := .unknown
      repaintOnce := true } :=
  if_neg hne

theorem get?_reshape (hw : WellFormed s) (hx : x < width) (hy : y < height) :
    (s.reshape width height).get? x y = some ((s.get? x y).getD (blank s.defaultStyle)) := by
  by_cases hsame : s.width = width ∧ s.height = height
  · obtain ⟨rfl, rfl⟩ := hsame
    obtain ⟨c, hcell⟩ := exists_cell hw ⟨hx, hy⟩
    rw [reshape_same, hcell, Option.getD_some]
  · have hc : (s.reshape width height).Contains x y := contains_reshape.mpr ⟨hx, hy⟩
    have hplace : Contains { s with width, height } x y := ⟨hx, hy⟩
    have hlt : x + y * width < width * height := index_lt hplace
    have hmod : (x + y * width) % width = x := index_mod hplace
    have hdiv : (x + y * width) / width = y := index_div hplace
    have hcell : (s.resizedTarget width height)[x + y * width]? =
        some ((s.get? x y).getD (blank s.defaultStyle)) := by
      rw [resizedTarget, Array.getElem?_ofFn, dif_pos hlt, hmod, hdiv]
    rw [get?_of_contains hc, reshape_of_ne hsame]
    exact hcell

/-! ### Chains -/

/-- Changes the size several times. -/
def resizeAll (s : Screen) (sizes : List (Nat × Nat)) : Except Fault Screen :=
  sizes.foldlM (fun s p => s.resize p.1 p.2) s

theorem resize_of_addressable (h : Addressable width height) :
    s.resize width height = .ok (s.reshape width height) :=
  if_pos (Or.inr h)

theorem Reachable.resize (h : Reachable s) (hr : s.resize width height = .ok t) : Reachable t := by
  have hcall := h.call (.perform (.resize width height))
  rwa [Screen.call, perform, hr] at hcall

theorem defaultStyle_reshape (s : Screen) (width height : Nat) :
    (s.reshape width height).defaultStyle = s.defaultStyle := by
  unfold reshape
  split <;> rfl

/-- A place keeps its cell through a chain of sizes if it lies in all of them. -/
theorem exists_resizeAll (h : Reachable s) (hsizes : ∀ p ∈ sizes, Addressable p.1 p.2) :
    ∃ t, s.resizeAll sizes = .ok t ∧ Reachable t ∧
      (t.width, t.height) = sizes.getLastD (s.width, s.height) ∧
      ∀ x y, t.Contains x y → t.get? x y =
        if s.Contains x y ∧ ∀ p ∈ sizes, x < p.1 ∧ y < p.2 then s.get? x y
        else some (blank s.defaultStyle) := by
  induction sizes generalizing s with
  | nil =>
    refine ⟨s, rfl, h, rfl, fun x y hc => ?_⟩
    rw [if_pos ⟨hc, fun p hp => nomatch hp⟩]
  | cons p sizes ih =>
    obtain ⟨width, height⟩ := p
    have hnew : Addressable width height := hsizes _ List.mem_cons_self
    have hresize := resize_of_addressable (s := s) hnew
    obtain ⟨t, ht, hreached, hlast, hcells⟩ := ih (h.resize hresize)
      fun p hp => hsizes p (List.mem_cons_of_mem _ hp)
    obtain ⟨hwidth, hheight⟩ := s.size_reshape width height
    have hw := reachable_wellFormed h
    refine ⟨t, ?_, hreached, ?_, fun x y hc => ?_⟩
    · rw [resizeAll, List.foldlM_cons, hresize]
      exact ht
    · rw [hlast, hwidth, hheight, List.getLastD_cons]
    · rw [hcells x y hc, defaultStyle_reshape]
      simp only [contains_reshape, List.forall_mem_cons]
      by_cases hplace : x < width ∧ y < height
      · rw [get?_reshape hw hplace.1 hplace.2]
        by_cases hold : s.Contains x y
        · obtain ⟨c, hcell⟩ := exists_cell hw hold
          simp only [hplace, hold, hcell, and_self, true_and, Option.getD_some]
        · simp only [hplace, hold, get?_of_not_contains hold, false_and, if_false, Option.getD_none,
            ite_self]
      · simp only [hplace, false_and, and_false, if_false]

/-- Growing and shrinking back restores what should show. -/
theorem exists_resizeAll_back (h : Reachable s)
    (hsizes : ∀ p ∈ sizes, Addressable p.1 p.2 ∧ s.width ≤ p.1 ∧ s.height ≤ p.2) :
    ∃ t, s.resizeAll (sizes ++ [(s.width, s.height)]) = .ok t ∧ t.target = s.target := by
  have hw := reachable_wellFormed h
  have hall : ∀ p ∈ sizes ++ [(s.width, s.height)],
      Addressable p.1 p.2 ∧ s.width ≤ p.1 ∧ s.height ≤ p.2 := by
    intro p hp
    rcases List.mem_append.mp hp with hp | hp
    · exact hsizes p hp
    · rw [List.mem_singleton.mp hp]
      exact ⟨hw.addressable, Nat.le_refl _, Nat.le_refl _⟩
  obtain ⟨t, ht, hreached, hlast, hcells⟩ := exists_resizeAll h fun p hp => (hall p hp).1
  rw [List.getLastD_concat] at hlast
  obtain ⟨hwidth, hheight⟩ := Prod.mk.inj hlast
  refine ⟨t, ht, target_eq hwidth hheight ?_ hw.size_target fun x y hc => ?_⟩
  · rw [(reachable_wellFormed hreached).size_target, hwidth, hheight, hw.size_target]
  · have hplace : t.Contains x y := by
      rwa [Contains, hwidth, hheight]
    have hin : ∀ p ∈ sizes ++ [(s.width, s.height)], x < p.1 ∧ y < p.2 := by
      intro p hp
      obtain ⟨-, hwide, hhigh⟩ := hall p hp
      exact ⟨Nat.lt_of_lt_of_le hc.1 hwide, Nat.lt_of_lt_of_le hc.2 hhigh⟩
    rw [hcells x y hplace, if_pos ⟨hc, hin⟩]

/-! ### Copying rows -/

/-- The screen in another size, all blank. -/
def cleared (s : Screen) (width height : Nat) : Screen :=
  let grid := Array.replicate (width * height) (blank s.defaultStyle)
  { s with
    width, height
    shown := grid
    target := grid
    position := 0
    peer := .unknown
    repaintOnce := true }

/-- The first cells of a row. -/
def rowCells (s : Screen) (count row : Nat) : List Cell :=
  (s.target.toList.take (row * s.width + count)).drop (row * s.width)

/-- Copies the first cells of a row into another grid. A slice that is not within its grid has no
value. -/
def copyRow? (s : Screen) (count : Nat) (t : Screen) (row : Nat) : Option Screen := do
  let source ← word? (row * s.width)
  let sourceEnd ← word? (source + count)
  let dest ← word? (row * t.width)
  let destEnd ← word? (dest + count)
  if sourceEnd ≤ s.target.size ∧ destEnd ≤ t.target.size then
    return t.paint ((s.rowCells count row).mapIdx fun i c => (dest + i, c))
  else none

/-- Changes the size row by row. -/
def resize? (s : Screen) (width height : Nat) : Option (Except Fault Screen) := do
  if s.width = width ∧ s.height = height then return .ok s
  else if Addressable width height then
    let rows := List.range (min s.height height)
    let t ← rows.foldlM (s.copyRow? (min s.width width)) (s.cleared width height)
    return .ok t
  else return .error (.gridTooLarge width height)

theorem wellFormed_cleared (hw : WellFormed s) (hnew : Addressable width height) :
    WellFormed (s.cleared width height) :=
  ⟨hnew, Array.size_replicate, Array.size_replicate, Nat.zero_le _, fun _ hi => (nomatch hi),
    hw.tail_valid⟩

theorem getElem?_rowCells {row count : Nat} (hrow : row < s.height) (hcount : count ≤ s.width)
    (i : Nat) : (s.rowCells count row)[i]? = if i < count then s.get? i row else none := by
  rw [rowCells, List.getElem?_drop, List.getElem?_take]
  by_cases hi : i < count
  · have hc : s.Contains i row := ⟨Nat.lt_of_lt_of_le hi hcount, hrow⟩
    rw [if_pos hi, if_pos (Nat.add_lt_add_left hi _), get?_of_contains hc, Array.getElem?_toList,
      index, Nat.add_comm]
  · rw [if_neg hi, if_neg (mt Nat.lt_of_add_lt_add_left hi)]

theorem copyRow?_eq (hw : WellFormed s) (ht : WellFormed t) {row count : Nat}
    (hrow : row < s.height) (hrow' : row < t.height) (hcount : count ≤ s.width)
    (hcount' : count ≤ t.width) :
    s.copyRow? count t row =
      some (t.paint ((s.rowCells count row).mapIdx fun i c => (row * t.width + i, c))) := by
  have hsource := row_le hrow hcount
  have hdest := row_le hrow' hcount'
  have hwords := hw.area_le
  have hwords' := ht.area_le
  rw [copyRow?, word?_of_le (by omega), Option.bind_eq_bind, Option.bind_some,
    word?_of_le (by omega), Option.bind_some, word?_of_le (by omega), Option.bind_some,
    word?_of_le (by omega), Option.bind_some, hw.size_target, ht.size_target,
    if_pos ⟨hsource, hdest⟩]
  rfl

/-- The placements of the cells that both grids have a place for, row by row. -/
def overlap (s : Screen) (width height : Nat) : List Placement :=
  (List.range (min s.height height)).flatMap fun row =>
    (s.rowCells (min s.width width) row).mapIdx fun i c => (row * width + i, c)

theorem mem_overlap (hx : x < width) (hy : y < height) {c : Cell} :
    (x + y * width, c) ∈ s.overlap width height ↔ s.get? x y = some c := by
  simp only [overlap, List.mem_flatMap, List.mem_range, Nat.lt_min]
  constructor
  · rintro ⟨row, ⟨hold, hnew⟩, hmem⟩
    obtain ⟨i, hi⟩ := List.mem_iff_getElem?.mp hmem
    rw [List.getElem?_mapIdx, getElem?_rowCells hold (Nat.min_le_left _ _)] at hi
    obtain ⟨d, hd, heq⟩ := Option.map_eq_some_iff.mp hi
    obtain ⟨hcount, hcell⟩ := Option.ite_none_right_eq_some.mp hd
    obtain ⟨hindex, rfl⟩ := Prod.mk.inj heq
    have hplace : Contains { s with width, height } i row := ⟨(Nat.lt_min.mp hcount).2, hnew⟩
    obtain ⟨rfl, rfl⟩ := index_inj hplace ⟨hx, hy⟩ ((Nat.add_comm _ _).trans hindex)
    exact hcell
  · intro hcell
    have hc : s.Contains x y := (Option.ite_none_right_eq_some.mp hcell).1
    refine ⟨y, ⟨hc.2, hy⟩, List.mem_iff_getElem?.mpr ⟨x, ?_⟩⟩
    rw [List.getElem?_mapIdx, getElem?_rowCells hc.2 (Nat.min_le_left _ _),
      if_pos (Nat.lt_min.mpr ⟨hc.1, hx⟩), hcell, Nat.add_comm]
    rfl

theorem drawn_overlap (hw : WellFormed s) (hnew : Addressable width height) :
    Drawn (s.cleared width height) ((s.cleared width height).paint (s.overlap width height))
      s.get? :=
  drawn_paint (wellFormed_cleared hw hnew) fun _ _ _ hc => mem_overlap hc.1 hc.2

theorem drawn_reshape (hw : WellFormed s) (hne : ¬(s.width = width ∧ s.height = height)) :
    Drawn (s.cleared width height) (s.reshape width height) s.get? := by
  refine ⟨?_, ?_, fun x y hc => ?_⟩
  · rw [reshape_of_ne hne]
    rfl
  · rw [reshape_of_ne hne, resizedTarget, cleared, Array.size_ofFn, Array.size_replicate]
  · have hblank : (s.cleared width height).get? x y = some (blank s.defaultStyle) :=
      (get?_of_contains hc).trans (Array.getElem?_replicate.trans (if_pos (index_lt hc)))
    obtain ⟨hx, hy⟩ : x < width ∧ y < height := hc
    rw [get?_reshape hw hx hy, hblank]
    cases s.get? x y <;> rfl

theorem resize?_eq (hw : WellFormed s) (width height : Nat) :
    s.resize? width height = some (s.resize width height) := by
  by_cases hsame : s.width = width ∧ s.height = height
  · rw [resize?, if_pos hsame, resize, if_pos (Or.inl hsame), reshape, if_pos hsame]
    rfl
  rw [resize?, if_neg hsame]
  by_cases hnew : Addressable width height
  · have hblank : WellFormed (s.cleared width height) := wellFormed_cleared hw hnew
    have hcopied : (List.range (min s.height height)).foldlM (s.copyRow? (min s.width width))
        (s.cleared width height) =
          some ((s.cleared width height).paint (s.overlap width height)) := by
      refine foldlM_paint _ fun row hrow qs => ?_
      obtain ⟨hold, hrow'⟩ := Nat.lt_min.mp (List.mem_range.mp hrow)
      have hpainted : WellFormed ((s.cleared width height).paint qs) := hblank.edit (.paint _ qs)
      exact copyRow?_eq hw hpainted hold hrow' (Nat.min_le_left _ _) (Nat.min_le_right _ _)
    rw [if_pos hnew, resize_of_addressable hnew]
    dsimp only
    rw [hcopied, (drawn_overlap hw hnew).unique (drawn_reshape hw hsame) hblank]
    rfl
  · rw [if_neg hnew, resize, if_neg fun h => h.elim hsame hnew]
    rfl

/-! ### The next pass -/

/-- A pass from the start that sends all cells sends each of them once, in order. -/
theorem due_of_forcing (hstart : s.position = 0) (hforcing : s.forcing = true) :
    s.due.map Prod.fst = List.range s.target.size ∧ s.due.map Prod.snd = s.target.toList := by
  have hall : ∀ p ∈ s.target.toList.zipIdx, s.isDue p.2 = true := by
    intro p _
    rw [isDue, hforcing]
    rfl
  have hdue : s.due = s.target.toList.zipIdx.map Prod.swap := by
    rw [due, hstart, List.drop_zero, List.filter_eq_self.mpr hall]
  rw [hdue, List.map_map, List.map_map, List.range_eq_range']
  exact ⟨List.zipIdx_map_snd 0 s.target.toList, List.zipIdx_map_fst 0 s.target.toList⟩

/-- A pass from the start leaves nothing pending, whatever the buffers. -/
theorem drains_of_start (hw : WellFormed s) {last : Option Placement} (hk : s.Knows last)
    (hstart : s.position = 0) {capacities : Nat → Nat} (hcap : ∀ n, 0 < capacities n) :
    ∃ t, Drains flush capacities s
      (s.tail.pending ++ encodeItems (sequences s.width last s.due)) t ∧ t.isClean = true := by
  obtain ⟨es, u, hs, hend⟩ := exists_sends s.forcing s.withoutTail
  obtain ⟨sent, hdue, -, hbytes, -⟩ := hs.sent hk
  rw [due_of_le hend, List.append_nil] at hdue
  rw [hdue, ← hbytes]
  have hclean := hs.isClean hend hw.size_eq hstart rfl
  have hleads : Leads s.withoutTail (bytesOf es) u.endPass := .clean hs hend hclean
  refine ⟨u.endPass, drains_of_takes (fun s bytes t n h hn => flush_takes h hn) ?_ hcap, ?_⟩
  · exact ⟨hw, _, rfl, hleads⟩
  · exact hclean

/-- The screen `t` is `s` in another size. The styles, the wish to repaint always and the tail of a
split cell are kept; the next pass begins at the start and sends all cells, to a peer of which
nothing is known. -/
def Resized (s t : Screen) (width height : Nat) : Prop :=
  t = { s with
    width, height
    shown := t.shown
    target := t.target
    position := 0
    peer := .unknown
    repaintOnce := true }

/-- Whatever the buffers, flushing sends the tail of a split cell and then each cell once, in order,
as to a peer of which nothing is known. -/
def SendsAll (s : Screen) : Prop :=
  ∃ cells : List Placement, cells.map Prod.fst = List.range (s.width * s.height) ∧
    cells.map Prod.snd = s.target.toList ∧
    ∀ capacities : Nat → Nat, (∀ n, 0 < capacities n) → ∃ u, u.isClean = true ∧
      Drains flush capacities s (s.tail.pending ++ encodeItems (sequences s.width none cells)) u

theorem Resized.sendsAll (h : Resized s t width height) (hw : WellFormed t) : t.SendsAll := by
  have hforcing : t.forcing = true := by
    rw [h]
    exact Bool.or_true _
  have hstart : t.position = 0 := by rw [h]
  have hknows : t.Knows none := by
    rw [h]
    rfl
  obtain ⟨hindices, hcells⟩ := due_of_forcing hstart hforcing
  rw [hw.size_target] at hindices
  refine ⟨t.due, hindices, hcells, fun capacities hcap => ?_⟩
  obtain ⟨u, hdrains, hclean⟩ := drains_of_start hw hknows hstart hcap
  exact ⟨u, hclean, hdrains⟩

theorem resized_reshape (hne : ¬(s.width = width ∧ s.height = height)) :
    Resized s (s.reshape width height) width height := by
  rw [Resized, reshape_of_ne hne]

/-! ### The grid in another size -/

/-- Behind any chain of addressable sizes, a place shows the cell that it showed at first if it has
lain in the grid all along, and a blank otherwise, which is a space in the default style; growing and
shrinking back restores all cells. A change to another size keeps the styles, the wish to repaint
always and the tail of a split cell, and nothing of the pass and the peer: what is sent next is that
tail and each cell of the new grid once, in order, as to a peer of which nothing is known. The present
size changes nothing, and a size that is too large is refused with the screen as it was. Copying the
rows one by one, no number is too large and no slice out of range, and it comes to the same. -/
theorem resizes_keep_overlap (h : Reachable s) :
    (∀ width height, s.resize? width height = some (s.resize width height)) ∧
    ((blank s.defaultStyle).style = s.defaultStyle ∧ (blank s.defaultStyle).codePoint = 0x20) ∧
    (∀ sizes : List (Nat × Nat), (∀ p ∈ sizes, Addressable p.1 p.2) →
      ∃ t, s.resizeAll sizes = .ok t ∧ Reachable t ∧
        (t.width, t.height) = sizes.getLastD (s.width, s.height) ∧
        ∀ x y, t.Contains x y → t.get? x y =
          if s.Contains x y ∧ ∀ p ∈ sizes, x < p.1 ∧ y < p.2 then s.get? x y
          else some (blank s.defaultStyle)) ∧
    (∀ sizes : List (Nat × Nat),
      (∀ p ∈ sizes, Addressable p.1 p.2 ∧ s.width ≤ p.1 ∧ s.height ≤ p.2) →
      ∃ t, s.resizeAll (sizes ++ [(s.width, s.height)]) = .ok t ∧ t.target = s.target) ∧
    (∀ width height, Addressable width height → ¬(s.width = width ∧ s.height = height) →
      ∃ t, s.resize width height = .ok t ∧ Resized s t width height ∧ t.SendsAll) ∧
    s.resize s.width s.height = .ok s ∧
    (∀ width height, ¬Addressable width height →
      s.resize width height = .error (.gridTooLarge width height) ∧
      s.call (.perform (.resize width height)) = ([], s)) := by
  have hw := reachable_wellFormed h
  refine ⟨resize?_eq hw, (reachable_styled h).blank, fun sizes => exists_resizeAll h,
    fun sizes => exists_resizeAll_back h, fun width height hnew hne => ?_, ?_,
    fun width height hlarge => ?_⟩
  · have hresize := resize_of_addressable (s := s) hnew
    have hresized := resized_reshape hne
    exact ⟨_, hresize, hresized, hresized.sendsAll (reachable_wellFormed (h.resize hresize))⟩
  · rw [resize_of_addressable hw.addressable, reshape_same]
  · have hne : ¬(s.width = width ∧ s.height = height) := by
      rintro ⟨rfl, rfl⟩
      exact hlarge hw.addressable
    have herror : s.resize width height = .error (.gridTooLarge width height) :=
      if_neg fun h => h.elim hne hlarge
    exact ⟨herror, call_of_error herror⟩

/-- Made narrow and wide again while a cell is split and the style is another one, a screen keeps
its second column and not its third, and has the tail of the cell and all cells to send. -/
theorem resizes_keep_overlap_of_split : ∃ s₀ s t u, create 3 2 .defaultStyle = .ok s₀ ∧
    (s₀.run [.flush 5 0, .perform (.setAttribute .bold true),
      .perform (.fill 0 0 3 2 0x41)]).2 = s ∧
    s.resizeAll [(2, 3), (4, 2)] = .ok t ∧ t.get? 1 1 = s.get? 1 1 ∧
    t.get? 2 1 = some (blank s.defaultStyle) ∧ (blank s.defaultStyle).style = s.defaultStyle ∧
    s.tail.pending ≠ [] ∧ s.resize 2 3 = .ok u ∧ Resized s u 2 3 ∧ u.SendsAll := by
  obtain ⟨s₀, s, hnew, hs, hsize, htail⟩ : ∃ s₀ s, create 3 2 .defaultStyle = .ok s₀ ∧
      (s₀.run [.flush 5 0, .perform (.setAttribute .bold true),
        .perform (.fill 0 0 3 2 0x41)]).2 = s ∧
      (s.width = 3 ∧ s.height = 2) ∧ s.tail.pending ≠ [] :=
    ⟨_, _, rfl, rfl, by decide +kernel, by decide +kernel⟩
  have hreachable : Reachable s := hs ▸ (Reachable.create hnew).run _
  obtain ⟨-, hblank, hchain, -, hstep, -, -⟩ := resizes_keep_overlap hreachable
  obtain ⟨t, ht, -, hlast, hcells⟩ := hchain [(2, 3), (4, 2)] (by decide)
  obtain ⟨hwidth, hheight⟩ : t.width = 4 ∧ t.height = 2 := Prod.mk.inj hlast
  obtain ⟨u, hu, hresized, hall⟩ := hstep 2 3 (by decide) (by omega)
  refine ⟨s₀, s, t, u, hnew, hs, ht, ?_, ?_, hblank.1, htail, hu, hresized, hall⟩
  · rw [hcells 1 1 ⟨by omega, by omega⟩, if_pos ⟨⟨by omega, by omega⟩, by decide⟩]
  · rw [hcells 2 1 ⟨by omega, by omega⟩, if_neg fun h => absurd h.2 (by decide)]

end Screen
end RemoteScreen
