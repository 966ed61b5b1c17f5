import RemoteScreen.Proofs.Screen.Blocks
import RemoteScreen.Proofs.Screen.Resize

/-! Restoring a snapshot. Whatever a screen showed and was about to send, it should show the snapshot
then, and no cell of its old content is left. If it has the size already, only what should show
changes, so that what a pass sends next are cells that differ from the snapshot; in another size all
cells are sent. -/

namespace RemoteScreen
namespace Screen

variable {all : Bool} {capacity used : Nat} {s t u : Screen} {cells : List Cell}
  {snapshot : Snapshot} {es : List Emission}

/-! ### The whole grid -/

/-- The screen with other cells that should show. -/
def withCells (s : Screen) (cells : List Cell) : Screen :=
  { s with target := cells.toArray }

theorem drawn_withCells (hw : WellFormed s) (hcells : cells.length = s.width * s.height) :
    Drawn s (s.withCells cells) (Supply.cellAt ⟨0, 0, s.width, s.height, cells⟩) := by
  refine ⟨rfl, ?_, fun x y hc => ?_⟩
  · rw [withCells, List.size_toArray, hcells, hw.size_target]
  have hplace : (s.withCells cells).Contains x y := hc
  have hin : InBlock 0 0 s.width s.height x y := by
    rw [InBlock, Nat.zero_add, Nat.zero_add]
    exact ⟨Nat.zero_le x, hc.1, Nat.zero_le y, hc.2⟩
  have hsupplied : Supply.cellAt ⟨0, 0, s.width, s.height, cells⟩ x y = cells[s.index x y]? := by
    rw [Supply.cellAt, if_pos hin, Nat.sub_zero, Nat.sub_zero, index, Nat.add_comm]
  have hshown : (s.withCells cells).get? x y = cells[s.index x y]? :=
    (get?_of_contains hplace).trans List.getElem?_toArray
  have hlt : s.index x y < cells.length := hcells ▸ index_lt hc
  rw [hshown, hsupplied, List.getElem?_eq_getElem hlt, Option.some_or]

/-- Cells that are placed on the whole grid leave nothing of it. -/
theorem blit_whole (hw : WellFormed s) (hcells : cells.length = s.width * s.height) :
    s.blit 0 0 s.width s.height cells = .ok (s.withCells cells) := by
  have hfits : s.Fits 0 0 s.width s.height := by
    rw [Fits, Nat.zero_add, Nat.zero_add]
    exact ⟨Nat.le_refl _, Nat.le_refl _⟩
  have hwhole : s.placeBlock 0 0 s.width s.height cells = s.withCells cells :=
    (hfits.drawn_placeBlock hw cells).unique (drawn_withCells hw hcells) hw
  rw [← hwhole]
  exact (checked_eq s 0 0 s.width s.height _).trans (if_pos hfits)

/-! ### Restoring -/

theorem restore_eq (hw : WellFormed s) (hnew : Addressable snapshot.width snapshot.height)
    (hcells : snapshot.cells.length = snapshot.width * snapshot.height) :
    snapshot.restore s =
      .ok ((s.reshape snapshot.width snapshot.height).withCells snapshot.cells) := by
  obtain ⟨hwidth, hheight⟩ := s.size_reshape snapshot.width snapshot.height
  have hblit := blit_whole (hw.reshape hnew) (hcells.trans (by rw [hwidth, hheight]))
  rw [hwidth, hheight] at hblit
  rw [Snapshot.restore, resize_of_addressable hnew]
  exact hblit

/-- Restores a snapshot as it is computed: rows are copied, and then cells are placed one by one. -/
def restore? (s : Screen) (snapshot : Snapshot) : Option (Except Fault Screen) := do
  match ← s.resize? snapshot.width snapshot.height with
  | .ok t => t.compute? (.blit 0 0 snapshot.width snapshot.height snapshot.cells)
  | .error fault => return .error fault

theorem restore?_eq (hw : WellFormed s) (hwidth : snapshot.width ≤ Snapshot.maxCount)
    (hheight : snapshot.height ≤ Snapshot.maxCount)
    (hnew : Addressable snapshot.width snapshot.height) :
    s.restore? snapshot = some (snapshot.restore s) := by
  obtain ⟨hwidth', hheight'⟩ := s.size_reshape snapshot.width snapshot.height
  have hsize : Sized (s.reshape snapshot.width snapshot.height) :=
    ⟨hwidth'.symm ▸ hwidth, hheight'.symm ▸ hheight⟩
  rw [restore?, resize?_eq hw, Snapshot.restore, resize_of_addressable hnew]
  exact compute?_eq (a := .blit 0 0 _ _ _) (hw.reshape hnew) hsize rfl

theorem capture_withCells (hwidth : s.width = snapshot.width) (hheight : s.height = snapshot.height) :
    Snapshot.capture (s.withCells snapshot.cells) = snapshot := by
  obtain ⟨width, height, cells⟩ := snapshot
  obtain rfl : s.width = width := hwidth
  obtain rfl : s.height = height := hheight
  rfl

/-! ### What is sent next -/

/-- A call that sends and does not draw. -/
def Call.Sending : Call → Prop
  | .perform _ => False
  | .flush _ _ | .finishCell _ => True

instance (k : Call) : Decidable k.Sending :=
  match k with
  | .perform _ => .isFalse id
  | .flush _ _ | .finishCell _ => .isTrue trivial

/-- Sending has led from `s` to `u`: all that should show is the same, and a place that is shown
otherwise has been sent as it should. -/
structure Sent (s u : Screen) : Prop where
  target : u.target = s.target
  shown : ∀ i : Nat, u.shown[i]? = s.shown[i]? ∨ u.shown[i]? = s.target[i]?

namespace Sent

theorem refl (s : Screen) : Sent s s :=
  ⟨rfl, fun _ => Or.inl rfl⟩

theorem trans (h : Sent s t) (h' : Sent t u) : Sent s u := by
  refine ⟨h'.target.trans h.target, fun i => ?_⟩
  rcases h'.shown i with hkept | hsent
  · rw [hkept]
    exact h.shown i
  · rw [hsent, h.target]
    exact Or.inr rfl

theorem sends (hs : Sends all s es u) (hsize : s.shown.size = s.target.size) : Sent s u := by
  refine ⟨hs.target_eq, fun i => ?_⟩
  rw [hs.shown_eq hsize i]
  split
  · exact Or.inr rfl
  · exact Or.inl rfl

theorem advance (h : s.position < s.target.size) (hsize : s.shown.size = s.target.size) :
    Sent s (s.advance h) := by
  refine ⟨rfl, fun i => ?_⟩
  rw [shown_advance h hsize]
  split
  · exact Or.inr rfl
  · exact Or.inl rfl

theorem stop {o : Output} (hstop : Stop all capacity used s o t)
    (hsize : s.shown.size = s.target.size) : Sent s t := by
  cases hstop with
  | complete => exact ⟨rfl, fun _ => Or.inl rfl⟩
  | full => exact refl s
  | split hp =>
    obtain ⟨htarget, hshown⟩ := advance hp hsize
    exact ⟨htarget, hshown⟩

theorem sendAfter (hw : WellFormed s) (capacity start : Nat) :
    Sent s (s.sendAfter capacity start).2 := by
  rcases s.sendAfter_cases capacity start with ⟨-, heq⟩ | ⟨-, es, u, o, t, hs, hstop, heq⟩
  · rw [heq]
    exact ⟨rfl, fun _ => Or.inl rfl⟩
  · have hwithout : WellFormed s.withoutTail := hw.setTail .empty
    obtain ⟨htarget, hshown⟩ := sends hs hwithout.size_eq
    have hcells : Sent s u := ⟨htarget, hshown⟩
    rw [heq]
    exact hcells.trans (stop hstop (hwithout.sends hs).size_eq)

theorem call (hw : WellFormed s) {k : Call} (hk : k.Sending) : Sent s (s.call k).2 := by
  cases k with
  | perform => exact hk.elim
  | flush capacity start =>
    simp only [Screen.call]
    split
    next o t ho =>
      obtain ⟨-, heq⟩ := flushAfter_eq_ok.mp ho
      have hsent := sendAfter hw capacity start
      rwa [heq] at hsent
    next => exact refl s
  | finishCell capacity => exact ⟨rfl, fun _ => Or.inl rfl⟩

theorem run (hw : WellFormed s) {calls : List Call} (hcalls : ∀ k ∈ calls, k.Sending) :
    Sent s (s.run calls).2 := by
  induction calls generalizing s with
  | nil => exact refl s
  | cons k ks ih =>
    obtain ⟨hk, hks⟩ := List.forall_mem_cons.mp hcalls
    exact (call hw hk).trans (ih (hw.call k) hks)

end Sent

theorem Reachable.exists_knows (h : Reachable s) : ∃ last, s.Knows last := by
  induction h with
  | create h => exact ⟨none, knows_of_create h⟩
  | call _ c ih =>
    obtain ⟨last, hk⟩ := ih
    exact ⟨_, knows_call hk c⟩

/-- Whatever the buffers, flushing sends the tail of a split cell and then the given cells in order, as
to a peer to which the cell `last` was sent last, and leaves no difference. -/
def Delivers (s : Screen) (last : Option Placement) (sent : List Placement) : Prop :=
  ∀ capacities : Nat → Nat, (∀ n, 0 < capacities n) → ∃ u, u.isClean = true ∧
    Drains flush capacities s (s.tail.pending ++ encodeItems (sequences s.width last sent)) u

/-- What is sent next are the given cells, each in its place, as far as they differ from what is shown,
and these have differed from `shown` already. -/
def SendsChanges (s : Screen) (cells : List Cell) (shown : Array Cell) : Prop :=
  ∃ last sent, s.Knows last ∧ s.Delivers last sent ∧ (sent.map Prod.fst).Pairwise (· < ·) ∧
    (∀ i c, (i, c) ∈ sent ↔ cells[i]? = some c ∧ s.shown[i]? ≠ some c) ∧
    ∀ i c, (i, c) ∈ sent → shown[i]? ≠ some c

/-- A pass that begins behind any sending and is not forced sends differences only. -/
theorem sendsChanges_of_sent (h : Reachable u) (hsent : Sent s u) (hstart : u.position = 0)
    (hforcing : u.forcing = false) : u.SendsChanges s.target.toList s.shown := by
  obtain ⟨last, hk⟩ := h.exists_knows
  have hdue : ∀ i c, (i, c) ∈ u.due ↔ s.target.toList[i]? = some c ∧ u.shown[i]? ≠ some c := by
    intro i c
    rw [mem_due, isDue, hforcing, hstart, hsent.target, Bool.false_or, decide_eq_true_eq,
      Array.getElem?_toList]
    constructor
    · rintro ⟨-, hcell, hdiff⟩
      exact ⟨hcell, hcell ▸ hdiff⟩
    · rintro ⟨hcell, hdiff⟩
      exact ⟨Nat.zero_le i, hcell, hcell ▸ hdiff⟩
  refine ⟨last, u.due, hk, fun capacities hcap => ?_, u.due_increasing, hdue, fun i c hmem => ?_⟩
  · obtain ⟨v, hdrains, hclean⟩ := drains_of_start (reachable_wellFormed h) hk hstart hcap
    exact ⟨v, hclean, hdrains⟩
  · obtain ⟨hcell, hdiff⟩ := (hdue i c).mp hmem
    rw [Array.getElem?_toList] at hcell
    -- A cell that was shown as it should would have stayed so.
    intro hsame
    rcases hsent.shown i with hkept | hnew
    · exact hdiff (hkept.trans hsame)
    · exact hdiff (hnew.trans hcell)

/-! ### The restored screen -/

/-- Restoring a snapshot that has a cell for each place gives a screen that captures it, whatever the
screen was. The styles, the wish to repaint always and the tail of a split cell are kept. If the
screen has the size of the snapshot, only what should show changes; behind any sending, a pass from
the start that is not forced then sends cells of the snapshot that differ from what is shown. In
another size the next pass begins at the start and sends every cell, as to a peer of which nothing is
known. As it is computed, with every check and index, it comes to the same. -/
theorem restore_shows_snapshot (h : Reachable s) (width height : UInt64) (cells : List Cell)
    (hcells : cells.length = width.toNat * height.toNat)
    (hnew : Addressable width.toNat height.toNat) :
    let snapshot : Snapshot := ⟨width.toNat, height.toNat, cells⟩
    ∃ t, snapshot.restore s = .ok t ∧ s.restore? snapshot = some (.ok t) ∧ Reachable t ∧
      Snapshot.capture t = snapshot ∧
      (t.style = s.style ∧ t.defaultStyle = s.defaultStyle ∧ t.repaintAlways = s.repaintAlways ∧
        t.tail = s.tail) ∧
      (s.width = snapshot.width ∧ s.height = snapshot.height →
        t = { s with target := cells.toArray } ∧
        ∀ calls : List Call, (∀ k ∈ calls, k.Sending) →
          let u := (t.run calls).2
          u.position = 0 → u.forcing = false → u.SendsChanges cells s.shown) ∧
      (¬(s.width = snapshot.width ∧ s.height = snapshot.height) →
        Resized s t snapshot.width snapshot.height ∧ t.SendsAll) := by
  intro snapshot
  have hw := reachable_wellFormed h
  have hrestore : snapshot.restore s = _ := restore_eq hw hnew hcells
  have hcomputed : s.restore? snapshot = some (snapshot.restore s) :=
    restore?_eq hw (Nat.le_of_lt_succ width.toNat_lt) (Nat.le_of_lt_succ height.toNat_lt) hnew
  obtain ⟨hwidth, hheight⟩ := s.size_reshape snapshot.width snapshot.height
  have hreached : Reachable ((s.reshape snapshot.width snapshot.height).withCells cells) := by
    have hcall := h.call (.perform (.restore snapshot))
    rwa [call, perform, hrestore] at hcall
  refine ⟨_, hrestore, hcomputed.trans (congrArg some hrestore), hreached,
    capture_withCells hwidth hheight, ?_, fun hsame => ?_, fun hne => ?_⟩
  · by_cases hsame : s.width = snapshot.width ∧ s.height = snapshot.height
    · rw [reshape, if_pos hsame]
      exact ⟨rfl, rfl, rfl, rfl⟩
    · rw [reshape_of_ne hsame]
      exact ⟨rfl, rfl, rfl, rfl⟩
  · have hkept : s.reshape snapshot.width snapshot.height = s := if_pos hsame
    rw [hkept] at hreached ⊢
    refine ⟨rfl, fun calls hcalls hstart hforcing => ?_⟩
    exact sendsChanges_of_sent (hreached.run calls)
      (.run (reachable_wellFormed hreached) hcalls) hstart hforcing
  · have hresized : Resized s ((s.reshape snapshot.width snapshot.height).withCells cells)
        snapshot.width snapshot.height := by
      rw [reshape_of_ne hne]
      rfl
    exact ⟨hresized, hresized.sendsAll (reachable_wellFormed hreached)⟩

/-- A pass is cut within its first cell, and then everything is drawn over. -/
def drawnOver : List Call :=
  [.flush 5 0, .perform (.fill 0 0 3 2 0x41)]

theorem restore_shows_snapshot_of_split : ∃ s₀ s, create 3 2 .defaultStyle = .ok s₀ ∧
    (s₀.run drawnOver).2 = s ∧ s.tail.pending ≠ [] ∧
    (let snapshot : Snapshot := ⟨3, 2, List.replicate 6 (.ofCodePoint 0x42)⟩
      ∃ t, snapshot.restore s = .ok t ∧ Snapshot.capture t = snapshot ∧ t.tail = s.tail ∧
        let u := (t.run [.flush 100 0]).2
        u.position = 0 ∧ u.forcing = false ∧ u.SendsChanges snapshot.cells s.shown) ∧
    let snapshot : Snapshot := ⟨2, 1, List.replicate 2 (.ofCodePoint 0x42)⟩
    ∃ t, snapshot.restore s = .ok t ∧ Snapshot.capture t = snapshot ∧ Resized s t 2 1 ∧
      t.SendsAll := by
  have hbounds : Addressable 3 2 ∧ Addressable 2 1 := by decide
  obtain ⟨s₀, s, hnew, hs, hsize, htail, hstart, hforcing⟩ : ∃ s₀ s,
      create 3 2 .defaultStyle = .ok s₀ ∧ (s₀.run drawnOver).2 = s ∧
      (s.width = 3 ∧ s.height = 2) ∧ s.tail.pending ≠ [] ∧
      (Screen.run { s with target := (List.replicate 6 (Cell.ofCodePoint 0x42)).toArray }
        [.flush 100 0]).2.position = 0 ∧
      (Screen.run { s with target := (List.replicate 6 (Cell.ofCodePoint 0x42)).toArray }
        [.flush 100 0]).2.forcing = false :=
    ⟨_, _, rfl, rfl, by decide +kernel, by decide +kernel, by decide +kernel, by decide +kernel⟩
  have hreachable : Reachable s := hs ▸ (Reachable.create hnew).run drawnOver
  refine ⟨s₀, s, hnew, hs, htail, ?_, ?_⟩
  · obtain ⟨t, ht, -, -, hcapture, ⟨-, -, -, hkept⟩, hsame, -⟩ :=
      restore_shows_snapshot hreachable 3 2 (List.replicate 6 (.ofCodePoint 0x42)) rfl hbounds.1
    obtain ⟨rfl, hsends⟩ := hsame hsize
    exact ⟨_, ht, hcapture, hkept, hstart, hforcing, hsends _ (by decide) hstart hforcing⟩
  · obtain ⟨t, ht, -, -, hcapture, -, -, hother⟩ :=
      restore_shows_snapshot hreachable 2 1 (List.replicate 2 (.ofCodePoint 0x42)) rfl hbounds.2
    obtain ⟨hresized, hall⟩ := hother fun h => absurd (hsize.1.symm.trans h.1) (by decide)
    exact ⟨t, ht, hcapture, hresized, hall⟩

end Screen
end RemoteScreen
