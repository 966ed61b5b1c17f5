import RemoteScreen.Proofs.Screen.Display

/-! When a screen has nothing to send. A screen that is clean shows no difference, yet a repaint
sends its cells all the same; so it sends nothing exactly if it is clean and no repaint has cells
left, and that is when the peer has been sent all that it should show (`Delivered`), and shows it. -/

namespace RemoteScreen
namespace Screen

variable {all : Bool} {capacity start : Nat} {s t u : Screen} {es : List Emission}

/-! ### Passes that send nothing -/

theorem emission_ne_nil (h : s.position < s.target.size) : (s.emission h).bytes ≠ [] := by
  intro hnil
  have hglyph := (List.append_eq_nil_iff.mp hnil).2
  exact CodePoint.encode_ne_nil _ hglyph

theorem Sends.eq_of_bytesOf_nil (h : Sends all s es u) (hes : bytesOf es = []) :
    es = [] ∧ u = { s with position := u.position } := by
  induction h with
  | done => exact ⟨rfl, rfl⟩
  | skip hp hd hs ih =>
    obtain ⟨hnil, hu⟩ := ih hes
    exact ⟨hnil, hu⟩
  | send hp hd hs ih =>
    rw [bytesOf_cons] at hes
    exact absurd (List.append_eq_nil_iff.mp hes).1 (emission_ne_nil hp)

theorem Sends.le_of_all (h : Sends true s [] u) (hu : u.target.size ≤ u.position) :
    s.target.size ≤ s.position := by
  cases h with
  | done => exact hu
  | skip hp hd => exact absurd (Or.inl rfl) hd

/-- The pass has no cell to send. -/
def Settled (all : Bool) (s : Screen) : Prop :=
  s.shown = s.target ∧ (all = true → s.target.size ≤ s.position)

theorem Settled.not_due (h : Settled all s) (hp : s.position < s.target.size) : ¬Due all s := by
  obtain ⟨hshown, hall⟩ := h
  rintro (hforced | hdiff)
  · exact absurd hp (Nat.not_lt_of_le (hall hforced))
  · exact hdiff (congrArg (·[s.position]?) hshown)

theorem Settled.sends (h : Settled all s) (hs : Sends all s es u) : es = [] ∧ Settled all u := by
  induction hs with
  | done => exact ⟨rfl, h⟩
  | skip hp hd hs ih =>
    refine ih ⟨h.1, fun hforced => ?_⟩
    exact Nat.le_succ_of_le (h.2 hforced)
  | send hp hd hs ih => exact absurd hd (h.not_due hp)

/-! ### Calls that send nothing -/

/-- A sending call has nothing to send, and says so, exactly if no cell differs, none is split and
none is forced. -/
theorem sendAfter_idle_iff (s : Screen) (capacity start : Nat) :
    (s.sendAfter capacity start).1 = ⟨[], false⟩ ↔
      s.isClean = true ∧ (s.forcing = true → s.target.size ≤ s.position) := by
  rcases s.sendAfter_cases capacity start with ⟨hlt, heq⟩ | ⟨-, es, u, o, t, hs, hstop, heq⟩
  · -- The call stops within the tail of a split cell.
    rw [heq]
    refine iff_of_false (fun h => nomatch (Output.mk.injEq .. ▸ h).2) ?_
    rintro ⟨hclean, -⟩
    have htail := ((isClean_iff s).mp hclean).2
    rw [← ByteQueue.length_pending, htail] at hlt
    cases hlt
  rw [heq]
  constructor
  · intro hidle
    obtain ⟨hbytes, hpending⟩ := Output.mk.inj hidle
    obtain ⟨hfirst, -⟩ := List.append_eq_nil_iff.mp hbytes
    obtain ⟨htail, hcells⟩ := List.append_eq_nil_iff.mp hfirst
    obtain ⟨rfl, hu⟩ := hs.eq_of_bytesOf_nil hcells
    cases hstop with
    | complete hend =>
      have hclean : u.isClean = true := by simpa using hpending
      rw [hu] at hclean
      refine ⟨(isClean_iff s).mpr ⟨((isClean_iff _).mp hclean).1, htail⟩, fun hforced => ?_⟩
      rw [hforced] at hs
      exact hs.le_of_all hend
    | full => cases hpending
    | split => cases hpending
  · rintro ⟨hclean, hforced⟩
    obtain ⟨hshown, htail⟩ := (isClean_iff s).mp hclean
    have hsettled : Settled s.forcing s.withoutTail := ⟨hshown, hforced⟩
    obtain ⟨rfl, hu⟩ := hsettled.sends hs
    cases hstop with
    | complete hend =>
      have hempty : u.tail.pending = [] := by rw [hs.tail_eq]; rfl
      have huclean : u.isClean = true := (isClean_iff u).mpr ⟨hu.1, hempty⟩
      rw [htail, huclean]
      rfl
    | full hp hd => exact absurd hd (hu.not_due hp)
    | split hp hd => exact absurd hd (hu.not_due hp)

/-! ### What the peer has been sent -/

/-- A repaint has been asked for and has cells left to send. -/
def Repainting (s : Screen) : Prop :=
  s.repaintOnce = true ∧ s.position < s.target.size

instance (s : Screen) : Decidable s.Repainting :=
  inferInstanceAs (Decidable (_ ∧ _))

theorem delivered_iff (h : WellFormed s) : s.Delivered ↔ s.isClean = true ∧ ¬s.Repainting := by
  have hsize : s.shown.size = s.target.size := h.size_eq
  rw [isClean_iff]
  constructor
  · intro hd
    refine ⟨⟨Array.ext_getElem? fun i => ?_, hd.whole⟩, ?_⟩
    · by_cases hi : i < s.target.size
      · exact hd.shown i hi
      · have hi' : s.target.size ≤ i := Nat.le_of_not_lt hi
        rw [Array.getElem?_eq_none (hsize ▸ hi'), Array.getElem?_eq_none hi']
    · rintro ⟨honce, hp⟩
      exact Nat.lt_irrefl _ (hd.repainted honce s.position hp)
  · rintro ⟨⟨hshown, htail⟩, hrepaint⟩
    refine ⟨htail, fun i _ => congrArg (·[i]?) hshown, fun honce i hi => ?_⟩
    have hp : s.target.size ≤ s.position := Nat.le_of_not_lt fun hp => hrepaint ⟨honce, hp⟩
    exact Nat.lt_of_lt_of_le hi hp

/-- Unless it repaints in every pass, a screen sends nothing into the next buffer, whatever its size,
and has nothing pending then, exactly if the peer has been sent all that it should show; and that is
so exactly if the screen is clean and no repaint has cells left. Any display that has read all bytes
of the calls so far shows the target then, whatever it showed before. -/
theorem idle_iff_isClean_and_not_repainting (h : Reachable s) (halways : s.repaintAlways = false)
    (capacity : Nat) :
    ((s.flush capacity).1 = ⟨[], false⟩ ↔ s.Delivered) ∧
      (s.Delivered ↔ s.isClean = true ∧ ¬s.Repainting) ∧
      ∀ {width height : Nat} {style : Cell} {s₀ : Screen} (calls : List Call),
        create width height style = .ok s₀ → (s₀.run calls).2 = s →
        (∀ p, p <+: calls → (s₀.run p).2.Printable) → s.Delivered →
          s.ShownBy (s₀.run calls).1 := by
  have hdelivered := delivered_iff (reachable_wellFormed h)
  refine ⟨?_, hdelivered, ?_⟩
  · have hforcing : s.forcing = s.repaintOnce := by rw [forcing, halways, Bool.false_or]
    rw [flush, sendAfter_idle_iff, hdelivered, hforcing, Repainting, not_and, Nat.not_lt]
  · rintro width height style s₀ calls hnew rfl hprint hsent
    exact hsent.shownBy hnew hprint

/-- A repaint is cut behind its first cell, and has one left; nothing differs. Once that cell is sent,
all is delivered, and any display shows it. -/
theorem idle_iff_of_cut_repaint : ∃ s₀ s t, create 2 1 .defaultStyle = .ok s₀ ∧
    (s₀.run [.flush 17 0]).2 = s ∧ s.repaintAlways = false ∧ s.isClean = true ∧ s.Repainting ∧
    ((s.flush 100).1 = ⟨[], false⟩ ↔ s.Delivered) ∧
    (s.Delivered ↔ s.isClean = true ∧ ¬s.Repainting) ∧
    (s₀.run [.flush 17 0, .flush 100 0]).2 = t ∧ (t.flush 100).1 = ⟨[], false⟩ ∧
    t.ShownBy (s₀.run [.flush 17 0, .flush 100 0]).1 := by
  obtain ⟨s₀, hnew, halways, hclean, hrepaint, halways', hidle, hprint⟩ : ∃ s₀,
      create 2 1 .defaultStyle = .ok s₀ ∧
      (s₀.run [.flush 17 0]).2.repaintAlways = false ∧ (s₀.run [.flush 17 0]).2.isClean = true ∧
      (s₀.run [.flush 17 0]).2.Repainting ∧
      (s₀.run [.flush 17 0, .flush 100 0]).2.repaintAlways = false ∧
      ((s₀.run [.flush 17 0, .flush 100 0]).2.flush 100).1 = ⟨[], false⟩ ∧
      ∀ p ∈ ([.flush 17 0, .flush 100 0] : List Call).inits, (s₀.run p).2.Printable :=
    ⟨_, rfl, by decide +kernel, by decide +kernel, by decide +kernel, by decide +kernel,
      by decide +kernel, by decide +kernel⟩
  have hreach (calls : List Call) := (Reachable.create hnew).run calls
  obtain ⟨hcut, hiff, -⟩ := idle_iff_isClean_and_not_repainting (hreach [.flush 17 0]) halways 100
  obtain ⟨hdone, -, hshown⟩ :=
    idle_iff_isClean_and_not_repainting (hreach [.flush 17 0, .flush 100 0]) halways' 100
  exact ⟨s₀, _, _, hnew, rfl, halways, hclean, hrepaint, hcut, hiff, rfl, hidle,
    hshown _ hnew rfl (fun p hp => hprint p ((List.mem_inits p _).mpr hp)) (hdone.mp hidle)⟩

/-- A new screen is clean, although nothing of it has been sent and the next flush sends it. -/
theorem isClean_of_unsent : ∃ s₀, create 1 1 .defaultStyle = .ok s₀ ∧ s₀.repaintAlways = false ∧
    s₀.isClean = true ∧
    (s₀.flush 100).1 = ⟨ControlSequence.cursorPosition 0 0 ++
      ControlSequence.setStyle none .defaultStyle ++ [0x20], false⟩ ∧
    (s₀.flush 100).1 ≠ ⟨[], false⟩ :=
  ⟨_, rfl, by decide +kernel, by decide +kernel, by decide +kernel, by decide +kernel⟩

end Screen
end RemoteScreen
