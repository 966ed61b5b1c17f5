import Mathlib.Data.List.Infix
import RemoteScreen.Proofs.Display.Reading
import RemoteScreen.Proofs.Screen.WellFormed

/-! A display that reads everything a screen sends shows what the screen takes it to show
(`Follows`). Drawing behind the pass, a change of size, a new repaint and a lost cursor only weaken
what the screen relies on, and each cell sent makes up for it; so once all has been sent, every place
of the display shows the target (`Follows.grid_eq_target`). -/

namespace RemoteScreen
namespace Screen
open Relation (ReflTransGen)

variable {all : Bool} {capacity start used : Nat} {s t u : Screen} {d : Display}

/-- Whether every cell that should show has a glyph. -/
def Printable (s : Screen) : Prop :=
  ∀ c ∈ s.target, Display.Printable c.codePoint

instance (s : Screen) : Decidable s.Printable :=
  inferInstanceAs (Decidable (∀ _ ∈ _, _))

/-- The display is what the screen takes it to be: it has the known pen and cursor, and shows every
cell that has been sent, those apart that the running repaint has yet to reach. -/
structure Follows (d : Display) (s : Screen) : Prop where
  ground : d.mode = .ground
  pen : ∀ c, s.peer.style = some c → d.pen = .ofCell c
  cursor : ∀ i, s.peer.last = some i → d.column = i % s.width + 1 ∧ d.row = i / s.width
  grid : (i : Nat) → (c : Cell) → (s.repaintOnce = true → i < s.position) → s.shown[i]? = some c →
    d.grid (i % s.width) (i / s.width) = .ofCell c

/-! ### One cell -/

theorem col_row_succ {i last w : Nat} (h : last + 1 = i) (hcol : i % w ≠ 0) :
    last % w + 1 = i % w ∧ last / w = i / w := by
  subst h
  have hdvd : ¬w ∣ last + 1 := fun hd => hcol (Nat.mod_eq_zero_of_dvd hd)
  have hdiv : (last + 1) / w = last / w := Nat.succ_div_of_not_dvd hdvd
  have h1 := Nat.div_add_mod last w
  have h2 := Nat.div_add_mod (last + 1) w
  rw [hdiv] at h2
  exact ⟨by omega, hdiv.symm⟩

theorem WellFormed.lt_maxParameter (h : WellFormed s) {i : Nat} (hi : i < s.target.size) :
    i < ControlSequence.maxParameter := by
  have ha := h.addressable
  simp only [Addressable, Cell.byteCount, maxObjectBytes] at ha
  rw [h.size_target] at hi
  simp only [ControlSequence.maxParameter]
  omega

/-- The first part of a cell's sequence puts the cursor at its place. -/
theorem Follows.read_move (h : Follows d s) (hw : WellFormed s) {i : Nat} (hi : i < s.target.size) :
    d.read (if s.peer.last.any (· + 1 = i) && i % s.width ≠ 0 then []
      else ControlSequence.cursorPosition (i / s.width) (i % s.width)) =
    { d with column := i % s.width, row := i / s.width, mode := .ground } := by
  split
  next hmove =>
    simp only [Bool.and_eq_true, decide_eq_true_eq, Option.any_eq_true] at hmove
    obtain ⟨⟨last, hlast, hi⟩, hcol⟩ := hmove
    obtain ⟨hc, hr⟩ := h.cursor last hlast
    obtain ⟨hc', hr'⟩ := col_row_succ hi hcol
    rw [Display.read_nil, ← h.ground, ← hc', ← hr', ← hc, ← hr]
  next =>
    have hmax := hw.lt_maxParameter hi
    rw [Display.read_cursorPosition _ _ h.ground,
      Display.ordinal_sub_one (Nat.lt_of_le_of_lt (Nat.div_le_self _ _) hmax),
      Display.ordinal_sub_one (Nat.lt_of_le_of_lt (Nat.mod_le _ _) hmax)]

/-- The second part gives it the pen. -/
theorem Follows.read_change (h : Follows d s) {e : Display} (he : e.mode = .ground)
    (hpen : e.pen = d.pen) (c : Cell) :
    e.read (if s.peer.style.any (·.styleEq c) then []
      else ControlSequence.setStyle s.peer.style c) = { e with pen := .ofCell c, mode := .ground } := by
  split
  next hsame =>
    obtain ⟨p, hp, hpc⟩ := (Option.any_eq_true _ _).mp hsame
    have hc : e.pen = .ofCell c := by
      rw [hpen, h.pen p hp, ← Style.ofCell_style p, Cell.style_eq_of_styleEq hpc,
        Style.ofCell_style]
    rw [Display.read_nil, ← he, ← hc]
  next => exact Display.read_setStyle he fun p hp => hpen.trans (h.pen p hp)

theorem Follows.read_emission (h : Follows d s) (hw : WellFormed s) (hs : s.Printable)
    (hp : s.position < s.target.size) :
    d.read (s.emission hp).bytes =
      { d with
        grid := fun x y =>
          if x = s.position % s.width ∧ y = s.position / s.width then .ofCell s.target[s.position]
          else d.grid x y
        column := s.position % s.width + 1
        row := s.position / s.width
        pen := .ofCell s.target[s.position]
        mode := .ground } := by
  have hc : Display.Printable s.target[s.position].codePoint := hs _ (Array.getElem_mem hp)
  let e : Display :=
    { d with column := s.position % s.width, row := s.position / s.width, mode := .ground }
  have hchange := h.read_change (e := e) rfl rfl s.target[s.position]
  simp only [emission, encode]
  rw [Display.read_append, Display.read_append, h.read_move hw hp, hchange,
    Display.read_encode_of_lt (Cell.codePoint_lt _) hc rfl, Display.put, if_pos hc]
  rfl

theorem Follows.advance (h : Follows d s) (hw : WellFormed s) (hs : s.Printable)
    (hp : s.position < s.target.size) : Follows (d.read (s.emission hp).bytes) (s.advance hp) := by
  rw [h.read_emission hw hs hp]
  refine ⟨rfl, fun c hc => ?_, fun i hi => ?_, fun i c hi hc => ?_⟩
  · cases hc
    exact (Style.ofCell_style _).symm
  · cases hi
    exact ⟨rfl, rfl⟩
  · by_cases hip : i = s.position
    · subst hip
      rw [Screen.advance, commit, Array.getElem?_setIfInBounds_self_of_lt
        (by rw [hw.size_shown, ← hw.size_target]; exact hp)] at hc
      cases hc
      exact if_pos ⟨rfl, rfl⟩
    · rw [Screen.advance, commit, Array.getElem?_setIfInBounds_ne (Ne.symm hip)] at hc
      have hbehind : s.repaintOnce = true → i < s.position := fun hr =>
        Nat.lt_of_le_of_ne (Nat.le_of_lt_succ (hi hr)) hip
      refine (if_neg fun hxy => hip ?_).trans (h.grid i c hbehind hc)
      rw [← Nat.div_add_mod i s.width, ← Nat.div_add_mod s.position s.width]
      exact congrArg₂ _ (congrArg _ hxy.2) hxy.1

/-! ### One call -/

theorem Follows.edit (h : Follows d s) (he : Edit s t) : Follows d t := by
  cases he with
  | draw => exact { h with }
  | reshape width height =>
    unfold reshape
    split
    · exact h
    · exact ⟨h.ground, fun _ hc => (nomatch hc), fun _ hi => (nomatch hi), fun _ _ hi => (nomatch hi rfl)⟩
  | requestRepaint => exact ⟨h.ground, h.pen, h.cursor, fun _ _ hi => (nomatch hi rfl)⟩
  | forgetPeer => exact ⟨h.ground, fun _ hc => (nomatch hc), fun _ hi => (nomatch hi), h.grid⟩

theorem Follows.edits (h : Follows d s) (he : ReflTransGen Edit s t) : Follows d t := by
  induction he with
  | refl => exact h
  | tail _ he ih => exact ih.edit he

theorem Follows.setTail (h : Follows d s) (tail : ByteQueue) : Follows d { s with tail } :=
  { h with }

theorem Follows.skip (h : Follows d s) (hd : ¬Due s.forcing s) :
    Follows d { s with position := s.position + 1 } := by
  have honce : s.repaintOnce = false := by
    cases hr : s.repaintOnce
    · rfl
    · exact absurd (Or.inl (by rw [forcing, hr, Bool.or_true])) hd
  refine ⟨h.ground, h.pen, h.cursor, fun i c hi hc => h.grid i c (fun hr => ?_) hc⟩
  rw [honce] at hr
  cases hr

theorem Follows.sends {es : List Emission} (h : Follows d s) (hw : WellFormed s) (hs : s.Printable)
    (hp : Sends all s es t) (hall : all = s.forcing) : Follows (d.read (bytesOf es)) t := by
  induction hp generalizing d with
  | done => exact h
  | skip hp hd _ ih =>
    subst hall
    exact ih (h.skip hd) (hw.skip hp) hs rfl
  | send hp hd _ ih =>
    subst hall
    rw [bytesOf_cons, Display.read_append]
    exact ih (h.advance hw hs hp) (hw.advance hp) hs rfl

theorem Follows.endPass (h : Follows d s) (hw : WellFormed s) (hp : s.target.size ≤ s.position) :
    Follows d s.endPass := by
  refine ⟨h.ground, h.pen, h.cursor, fun i c _ hc => h.grid i c (fun _ => ?_) hc⟩
  obtain ⟨hi, -⟩ := Array.getElem?_eq_some_iff.mp hc
  have hsize : s.endPass.shown.size = s.target.size := hw.size_eq
  omega

/-- A cell that a call splits is on the display once its tail has been read as well. -/
theorem Follows.stop {o : Output} (h : Follows d u) (hw : WellFormed u) (hs : u.Printable)
    (htail : u.tail = .empty) (hstop : Stop all capacity used u o t) :
    Follows ((d.read o.bytes).read t.tail.pending) t := by
  cases hstop with
  | complete hp =>
    rw [show u.endPass.tail = .empty from htail]
    exact h.endPass hw hp
  | full =>
    rw [htail]
    exact h
  | split hp =>
    rw [ByteQueue.pending_ofList, ← Display.read_append, List.take_append_drop]
    exact (h.advance hw hs hp).setTail _

/-- What the display shows once it has read the tail of a split cell, the screen follows through
every sending call. -/
theorem Follows.sendAfter (h : Follows (d.read s.tail.pending) s) (hw : WellFormed s)
    (hs : s.Printable) (capacity start : Nat) :
    Follows ((d.read (s.sendAfter capacity start).1.bytes).read
      (s.sendAfter capacity start).2.tail.pending) (s.sendAfter capacity start).2 := by
  rcases s.sendAfter_cases capacity start with ⟨-, heq⟩ | ⟨-, es, u, o, t, hsends, hstop, heq⟩
  · rw [heq, ByteQueue.pending_send, ← Display.read_append, List.take_append_drop]
    exact h.setTail _
  · have hu := (h.setTail .empty).sends (hw.setTail .empty) hs hsends rfl
    have hwu := (hw.setTail .empty).sends hsends
    obtain ⟨shown, peer, position, rfl, -, -⟩ := hsends.frame
    rw [heq, Display.read_append, Display.read_append]
    exact hu.stop hwu hs rfl hstop

theorem Follows.call (h : Follows (d.read s.tail.pending) s) (hw : WellFormed s) (hs : s.Printable)
    (c : Call) :
    Follows ((d.read (s.call c).1).read (s.call c).2.tail.pending) (s.call c).2 := by
  rcases s.call_cases c with ⟨t, heq, he⟩ | ⟨capacity, start, -, heq⟩ | ⟨capacity, heq⟩
  · rw [heq, edits_tail_eq he]
    exact h.edits he
  · rw [heq]
    exact h.sendAfter hw hs capacity start
  · rw [heq, finishCell_eq, ByteQueue.pending_send, ← Display.read_append, List.take_append_drop]
    exact h.setTail _

theorem Follows.run (h : Follows (d.read s.tail.pending) s) (hw : WellFormed s) (cs : List Call)
    (hs : ∀ p, p <+: cs → (s.run p).2.Printable) :
    Follows ((d.read (s.run cs).1).read (s.run cs).2.tail.pending) (s.run cs).2 := by
  induction cs generalizing d s with
  | nil => exact h
  | cons c cs ih =>
    rw [run_cons, Display.read_append]
    exact ih (h.call hw (hs [] List.nil_prefix) c) (hw.call c) fun p hp =>
      hs (c :: p) (List.cons_prefix_cons.mpr ⟨rfl, hp⟩)

/-! ### Whole runs -/

theorem follows_of_create {width height : Nat} {style : Cell} (hc : create width height style = .ok s)
    (hd : d.mode = .ground) : Follows (d.read s.tail.pending) s := by
  obtain ⟨-, rfl⟩ := create_inv hc
  exact ⟨hd, fun _ hc => (nomatch hc), fun _ hi => (nomatch hi), fun _ _ hi => (nomatch hi rfl)⟩

/-- The peer has been sent all that it should show, since a repaint was last asked for. -/
structure Delivered (s : Screen) : Prop where
  whole : s.tail.pending = []
  shown : ∀ i < s.target.size, s.shown[i]? = s.target[i]?
  repainted : s.repaintOnce = true → ∀ i < s.target.size, i < s.position

theorem delivered_of_isClean (hclean : s.isClean = true) (honce : s.repaintOnce = false) :
    s.Delivered := by
  obtain ⟨hshown, htail⟩ := (isClean_iff s).mp hclean
  refine ⟨htail, fun i _ => congrArg (·[i]?) hshown, fun hrepaint => ?_⟩
  rw [honce] at hrepaint
  cases hrepaint

/-- Nothing is pending only at the end of a pass that leaves no difference. -/
theorem sendAfter_of_not_pending {o : Output} (h : s.sendAfter capacity start = (o, t))
    (hpend : o.pending = false) : t.isClean = true ∧ t.repaintOnce = false := by
  rcases s.sendAfter_cases capacity start with ⟨-, heq⟩ | ⟨-, es, u, o', t', -, hstop, heq⟩
  · cases heq.symm.trans h
    cases hpend
  · cases heq.symm.trans h
    cases hstop with
    | complete =>
      have hclean : u.isClean = true := by simpa using hpend
      exact ⟨hclean, rfl⟩
    | full => cases hpend
    | split => cases hpend

theorem Follows.grid_eq_target (h : Follows (d.read s.tail.pending) s) (hw : WellFormed s)
    (hs : s.Delivered) {x y : Nat} (hc : s.Contains x y) :
    (s.get? x y).map Glyph.ofCell = some (d.grid x y) := by
  rw [hs.whole, Display.read_nil] at h
  have hi := index_lt hc
  rw [← hw.size_target] at hi
  have htarget : s.target[s.index x y]? = some s.target[s.index x y] := Array.getElem?_eq_getElem hi
  have hcell := h.grid (s.index x y) _ (fun honce => hs.repainted honce _ hi)
    ((hs.shown _ hi).trans htarget)
  rw [index_mod hc, index_div hc] at hcell
  rw [get?_of_contains hc, htarget, Option.map_some, hcell]

/-- Any display shows the target of the screen once it has read some bytes, whatever it showed
before. -/
def ShownBy (s : Screen) (bytes : List UInt8) : Prop :=
  ∀ d : Display, d.mode = .ground → ∀ x y, s.Contains x y →
    (s.get? x y).map Glyph.ofCell = some ((d.read bytes).grid x y)

/-- Whatever calls a new screen has taken: if all is delivered, the bytes so far show the target. -/
theorem Delivered.shownBy {width height : Nat} {style : Cell} {s₀ : Screen} {calls : List Call}
    (h : (s₀.run calls).2.Delivered) (hnew : create width height style = .ok s₀)
    (hprint : ∀ p, p <+: calls → (s₀.run p).2.Printable) :
    (s₀.run calls).2.ShownBy (s₀.run calls).1 := by
  intro d hd x y hxy
  have hw := reachable_wellFormed ((Reachable.create hnew).run calls)
  have hf := (follows_of_create hnew hd).run (wellFormed_of_create hnew) calls hprint
  exact hf.grid_eq_target hw h hxy

/-- Whatever calls a new screen takes, in any order and with buffers of any size: once a call leaves
nothing pending, a display that has read all bytes so far shows the target, whatever it showed
before. -/
theorem grid_eq_target_of_not_pending {width height : Nat} {style : Cell} {s₀ : Screen} {o : Output}
    (hnew : create width height style = .ok s₀) (calls : List Call)
    (hprint : ∀ p, p <+: calls → (s₀.run p).2.Printable)
    (hflush : (s₀.run calls).2.flushAfter capacity start = .ok (o, t)) (hpend : o.pending = false)
    (d : Display) (hd : d.mode = .ground) {x y : Nat} (hxy : t.Contains x y) :
    (t.get? x y).map Glyph.ofCell = some ((d.read ((s₀.run calls).1 ++ o.bytes)).grid x y) := by
  obtain ⟨-, hsend⟩ := flushAfter_eq_ok.mp hflush
  have hw := reachable_wellFormed ((Reachable.create hnew).run calls)
  have hf := (follows_of_create hnew hd).run (wellFormed_of_create hnew) calls hprint
  have hafter := hf.sendAfter hw (hprint calls List.prefix_rfl) capacity start
  have hwafter := hw.sendAfter capacity start
  obtain ⟨hclean, honce⟩ := sendAfter_of_not_pending hsend hpend
  rw [hsend] at hafter hwafter
  rw [Display.read_append]
  exact hafter.grid_eq_target hwafter (delivered_of_isClean hclean honce) hxy

/-- A cell is split before the screen grows and after it, and a repaint begins anew behind it. -/
def splittingCalls : List Call :=
  [.perform (.put 1 0 0x20AC), .flush 7 0, .perform (.resize 3 1),
    .perform (.setAttribute .bold true), .flush 12 0, .perform (.put 0 0 0x41),
    .perform .repaintOnce, .finishCell 2]

/-- A display that others have used: its cursor and its pen are not as a new screen would have them.
-/
def markedDisplay : Display where
  grid _ _ := .ofCell .defaultStyle
  column := 5
  row := 7
  pen := .ofCell .empty
  plain := (.red, .green)
  cleared pen := ⟨0x20, pen⟩

theorem grid_eq_target_of_split_cells : ∃ s₀ o t,
    create 2 1 .defaultStyle = .ok s₀ ∧
    (s₀.run splittingCalls).2.flushAfter 100 0 = .ok (o, t) ∧
    o.pending = false ∧ t.Contains 1 0 ∧
    (t.get? 1 0).map Glyph.ofCell =
      some ((markedDisplay.read ((s₀.run splittingCalls).1 ++ o.bytes)).grid 1 0) := by
  obtain ⟨s₀, hnew, hprint, o, t, hflush, hpend, hxy⟩ : ∃ s₀, create 2 1 .defaultStyle = .ok s₀ ∧
      (∀ p ∈ splittingCalls.inits, (s₀.run p).2.Printable) ∧ ∃ o t,
      (s₀.run splittingCalls).2.flushAfter 100 0 = .ok (o, t) ∧ o.pending = false ∧
      t.Contains 1 0 :=
    ⟨_, rfl, by decide +kernel, _, _, rfl, by decide +kernel, by decide +kernel⟩
  exact ⟨s₀, o, t, hnew, hflush, hpend, hxy, grid_eq_target_of_not_pending hnew splittingCalls
    (fun p hp => hprint p ((List.mem_inits p _).mpr hp)) hflush hpend markedDisplay rfl hxy⟩

end Screen
end RemoteScreen
