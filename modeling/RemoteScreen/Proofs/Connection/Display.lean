import Mathlib.Data.List.Infix
import RemoteScreen.Proofs.Connection.Calls
import RemoteScreen.Proofs.Screen.Display

/-! A display behind a connection. What is queued may move its cursor, change its pen or clear it,
and goes out between two cells; the screen forgets its peer behind it, and repaints everything
behind a clearing (`Follows`). So the display still shows the target once a flush leaves nothing
pending. -/

namespace RemoteScreen
namespace Connection

variable {c e : Connection} {d : Display} {s : Screen} {r : Request} {capacity : Nat}

/-! ### Requests -/

/-- Whether a request is one of the fixed sequences, and not the caller's own bytes or text. -/
def Request.Control : Request → Prop
  | bytes _ => False
  | text _ => False
  | _ => True

instance (r : Request) : Decidable r.Control :=
  match r with
  | .bytes _ | .text _ => .isFalse id
  | .negotiation | .resetStyle | .clearScreen | .moveCursor _ _ | .cursorVisible _ =>
    .isTrue trivial

/-- Whether a call queues nothing but fixed sequences. -/
def Call.Control : Call → Prop
  | submit r => r.Control
  | _ => True

instance (k : Call) : Decidable k.Control :=
  match k with
  | .submit r => inferInstanceAs (Decidable r.Control)
  | .screen _ | .parse _ | .clearKeyboard | .flush _ => .isTrue trivial

/-- Of the fixed sequences, only the clearing changes what a display shows. -/
theorem read_request (hr : r.Control) (hd : d.mode = .ground) :
    (d.read r.encode).mode = .ground ∧ (r = .clearScreen ∨ (d.read r.encode).grid = d.grid) := by
  cases r with
  | bytes _ => exact hr.elim
  | text _ => exact hr.elim
  | negotiation =>
    rw [Request.encode, Display.read_negotiation hd]
    exact ⟨rfl, Or.inr rfl⟩
  | resetStyle =>
    rw [Request.encode, Display.read_reset hd]
    exact ⟨rfl, Or.inr rfl⟩
  | clearScreen =>
    rw [Request.encode, Display.read_clearScreen hd]
    exact ⟨rfl, Or.inl rfl⟩
  | moveCursor x y =>
    rw [Request.encode, Display.read_cursorPosition _ _ hd]
    exact ⟨rfl, Or.inr rfl⟩
  | cursorVisible visible =>
    rw [Request.encode, Display.read_cursorVisible _ hd]
    exact ⟨rfl, Or.inr rfl⟩

theorem encode_ne_nil (hr : r.Control) : r.encode ≠ [] := by
  cases r with
  | bytes _ => exact hr.elim
  | text _ => exact hr.elim
  | cursorVisible visible => cases visible <;> exact List.cons_ne_nil _ _
  | _ => exact List.cons_ne_nil _ _

/-- The screen follows a display through a request, as far as it does not rely on the cursor and
the pen. -/
theorem follows_read_request (h : Screen.Follows d s) (hr : r.Control) :
    Screen.Follows (d.read r.encode) (r.screenAfter s).forgetPeer := by
  obtain ⟨hmode, hgrid⟩ := read_request hr h.ground
  refine ⟨hmode, fun _ hc => (nomatch hc), fun _ hi => (nomatch hi), fun i cell hi hcell => ?_⟩
  rcases r.screenAfter_eq s with heq | ⟨rfl, -⟩
  · rcases hgrid with rfl | hgrid
    · exact (nomatch hi rfl)
    · rw [heq] at hi hcell ⊢
      rw [hgrid]
      exact h.grid i cell hi hcell
  · exact (nomatch hi rfl)

/-! ### Calls -/

/-- The screen follows a display that has read the tail of a split cell and the queue. -/
def Follows (d : Display) (c : Connection) : Prop :=
  Screen.Follows (d.read (c.screen.tail.pending ++ c.outbound.pending)) c.ready

theorem printable_ready (h : c.screen.Printable) : c.ready.Printable := by
  unfold ready
  split <;> exact h

theorem Follows.quiet (h : Follows d c) (hq : Quiet c e) : Follows d e := by
  unfold Follows at h ⊢
  rw [hq.outbound, Screen.edits_tail_eq hq.screen]
  unfold ready at h ⊢
  rw [hq.outbound]
  split at h
  next hdr =>
    rw [if_pos hdr]
    exact h.edits hq.screen
  next hdr =>
    rw [if_neg hdr]
    exact h.edits (Screen.edits_forgotten hq.screen)

theorem Follows.submit (h : Follows d c) (hr : r.Control) :
    Follows d { c with screen := r.screenAfter c.screen, outbound := c.outbound.push r.encode } := by
  have hdr : ¬(c.outbound.push r.encode).isDrained = true := by
    intro hdr
    rw [ByteQueue.isDrained_iff, ByteQueue.pending_push] at hdr
    exact encode_ne_nil hr (List.append_eq_nil_iff.mp hdr).2
  have hscreen : (r.screenAfter c.screen.forgetPeer).forgetPeer =
      (r.screenAfter c.screen).forgetPeer := by
    cases r <;> rfl
  have hforgot := Screen.Follows.edit h .forgetPeer
  rw [forgetPeer_ready] at hforgot
  unfold Follows
  rw [ready_of_not_drained hdr, r.tail_screenAfter, ByteQueue.pending_push, ← List.append_assoc,
    Display.read_append, ← hscreen]
  exact follows_read_request hforgot hr

theorem Follows.flush (h : Follows d c) (hw : c.screen.WellFormed) (hs : c.screen.Printable)
    (capacity : Nat) :
    Follows (d.read (c.flush capacity).1.bytes) (c.flush capacity).2 := by
  unfold Follows at h ⊢
  rcases c.flush_cases capacity with ⟨-, heq⟩ | ⟨-, hlt, heq⟩ | ⟨-, o, t, hsend, heq⟩
  · rw [heq, ready_setTail, ← Display.read_append, ByteQueue.pending_send, ← List.append_assoc,
      List.take_append_drop]
    exact h.setTail _
  · rw [heq, ready_send hlt, ← Display.read_append, ByteQueue.pending_send]
    show Screen.Follows (d.read (_ ++ _ ++ ([] ++ _))) _
    rw [List.nil_append, List.append_assoc, List.take_append_drop]
    exact h.setTail .empty
  · have hafter := Screen.Follows.sendAfter (s := c.ready.withoutTail) (h.setTail .empty)
      ((wellFormed_ready hw).setTail .empty) (printable_ready hs) capacity
      (c.screen.tail.size + c.outbound.size)
    rw [hsend] at hafter
    rw [heq, ready_of_drained rfl]
    show Screen.Follows ((d.read (_ ++ _ ++ o.bytes)).read (t.tail.pending ++ [])) t
    rw [List.append_nil, Display.read_append]
    exact hafter

theorem Follows.call (h : Follows d c) (hw : c.screen.WellFormed) (hs : c.screen.Printable)
    {k : Call} (hk : k.Indirect ∧ k.Control) : Follows (d.read (c.call k).1) (c.call k).2 := by
  rcases c.call_cases hk.1 with ⟨e, heq, hq, -⟩ | ⟨r, rfl, hroom⟩ | ⟨capacity, rfl⟩
  · rw [heq]
    exact h.quiet hq
  · rw [Connection.call, submit_of_hasRoom hroom]
    exact h.submit hk.2
  · exact h.flush hw hs capacity

theorem Follows.run (h : Follows d c) (hc : c.screen.Reachable) {calls : List Call}
    (hcalls : ∀ k ∈ calls, k.Indirect ∧ k.Control)
    (hs : ∀ p, p <+: calls → (c.run p).2.screen.Printable) :
    Follows (d.read (c.run calls).1) (c.run calls).2 := by
  induction calls generalizing d c with
  | nil => exact h
  | cons k ks ih =>
    rw [run_cons, Display.read_append]
    refine ih (h.call (Screen.reachable_wellFormed hc) (hs [] List.nil_prefix)
      (hcalls k List.mem_cons_self)) (screen_reachable_call hc k)
      (fun j hj => hcalls j (List.mem_cons_of_mem _ hj)) fun p hp => ?_
    exact hs (k :: p) (List.cons_prefix_cons.mpr ⟨rfl, hp⟩)

/-! ### Whole runs -/

theorem follows_of_opened {settings : ConnectionSettings} (hnew : Opened settings c)
    (hd : d.mode = .ground) : Follows d c := by
  obtain ⟨⟨width, height, style, s, hs, hedits⟩, hout⟩ := hnew.frame
  have htail : s.tail = .empty := Screen.tail_of_create hs
  have hf := Screen.follows_of_create hs hd
  rw [htail, ByteQueue.pending_empty, Display.read_nil] at hf
  have hscreen := hf.edits hedits
  unfold Follows
  rw [Screen.edits_tail_eq hedits, htail, ByteQueue.pending_empty, List.nil_append]
  unfold openingWrites at hout
  split at hout
  · have hdr : ¬c.outbound.isDrained = true := by
      intro hdr
      rw [ByteQueue.isDrained_iff, hout] at hdr
      cases hdr
    have hread := follows_read_request (r := .negotiation) hscreen trivial
    rw [ready_of_not_drained hdr, hout]
    exact hread
  · have hdr : c.outbound.isDrained = true := by
      rw [ByteQueue.isDrained_iff, hout]
      rfl
    rw [ready_of_drained hdr, hout]
    exact hscreen

/-- Nothing is pending only once the tail, the queue and the screen have all been sent. -/
theorem flush_of_not_pending {o : Screen.Output} (h : c.flush capacity = (o, e))
    (hpend : o.pending = false) :
    e.outbound = .empty ∧ e.screen.isClean = true ∧ e.screen.repaintOnce = false := by
  rcases c.flush_cases capacity with ⟨-, heq⟩ | ⟨-, -, heq⟩ | ⟨-, o', t, hsend, heq⟩
  · cases heq.symm.trans h
    cases hpend
  · cases heq.symm.trans h
    cases hpend
  · cases heq.symm.trans h
    exact ⟨rfl, Screen.sendAfter_of_not_pending hsend hpend⟩

/-- Whatever a client and its server do on a new connection, once a flush leaves nothing pending, a
display that has read all bytes so far shows the target, whatever it showed before and whatever a
clearing puts in its place. -/
theorem shows_target_of_flushed {settings : ConnectionSettings} {c₀ : Connection}
    (hnew : Opened settings c₀) (calls : List Call) (hcalls : ∀ k ∈ calls, k.Indirect ∧ k.Control)
    (hprint : ∀ p, p <+: calls → (c₀.run p).2.screen.Printable) {o : Screen.Output}
    (hflush : (c₀.run calls).2.flush capacity = (o, c)) (hpend : o.pending = false)
    (d : Display) (hd : d.mode = .ground) {x y : Nat} (hxy : c.screen.Contains x y) :
    (c.screen.get? x y).map Glyph.ofCell =
      some ((d.read ((c₀.run calls).1 ++ o.bytes)).grid x y) := by
  have hreach := hnew.reachable.run calls
  have hw := Screen.reachable_wellFormed (screen_reachable hreach)
  have hf := (follows_of_opened hnew hd).run (screen_reachable hnew.reachable) hcalls hprint
  have hafter := hf.flush hw (hprint calls List.prefix_rfl) capacity
  have hwafter := Screen.reachable_wellFormed (screen_reachable (hreach.call (.flush capacity)))
  obtain ⟨hempty, hclean, honce⟩ := flush_of_not_pending hflush hpend
  unfold Follows at hafter
  rw [Connection.call] at hwafter
  rw [hflush] at hafter hwafter
  rw [hempty, ready_of_drained (by rw [hempty]; rfl), ByteQueue.pending_empty, List.append_nil] at hafter
  rw [Display.read_append]
  exact hafter.grid_eq_target hwafter (Screen.delivered_of_isClean hclean honce) hxy

/-- Settings under which a window may be as small as one cell. -/
def smallWindows : ConnectionSettings where
  minColumns := 1
  minRows := 1

/-- The screen is cleared behind a cell that is split, and grows as the client reports. -/
def clearingCalls : List Call :=
  [.screen (.perform (.put 0 0 0x20AC)), .flush 20, .submit .clearScreen, .flush 4,
    .submit (.moveCursor 0 0), .parse [0xFF, 0xFA, 0x1F, 0, 3, 0, 2, 0xFF, 0xF0], .flush 5, .flush 9]

theorem shows_target_of_cleared : ∃ c₀ o c,
    Opened smallWindows c₀ ∧ (c₀.run clearingCalls).2.flush 400 = (o, c) ∧
    o.pending = false ∧ c.screen.Contains 2 0 ∧
    (c.screen.get? 2 0).map Glyph.ofCell =
      some ((Screen.markedDisplay.read ((c₀.run clearingCalls).1 ++ o.bytes)).grid 2 0) := by
  obtain ⟨c₀, hnew, hprint, o, c, hflush, hpend, hxy⟩ : ∃ c₀, Opened smallWindows c₀ ∧
      (∀ p ∈ clearingCalls.inits, (c₀.run p).2.screen.Printable) ∧ ∃ o c,
      (c₀.run clearingCalls).2.flush 400 = (o, c) ∧ o.pending = false ∧ c.screen.Contains 2 0 :=
    ⟨_, .create (rfl : Screen.create 2 1 .defaultStyle = .ok _) [.fill 0 0 2 1 0x2E] rfl,
      by decide +kernel, _, _, rfl, by decide +kernel, by decide +kernel⟩
  exact ⟨c₀, o, c, hnew, hflush, hpend, hxy, shows_target_of_flushed hnew clearingCalls (by decide)
    (fun p hp => hprint p ((List.mem_inits p _).mpr hp)) hflush hpend Screen.markedDisplay rfl hxy⟩

end Connection
end RemoteScreen
