import RemoteScreen.Proofs.Connection.Display
import RemoteScreen.Proofs.Connection.Progress
import RemoteScreen.Proofs.Screen.Actions

/-! Connections at rest. A flush that leaves nothing pending leaves nothing to do either, and no call
that only draws, refuses a request or reads what the client sends stirs more than what should show. So
a frame that is drawn again as it was sends nothing, whatever the buffers. -/

namespace RemoteScreen

namespace Screen

variable {all : Bool} {capacity start used : Nat} {s t u : Screen} {a : Action}

/-- Drawing, a change to the size that the screen has, and a snapshot of that size. -/
def Action.Redraws (s : Screen) : Action → Prop
  | .resize width height => s.width = width ∧ s.height = height
  | .restore snapshot => s.width = snapshot.width ∧ s.height = snapshot.height
  | a => a.Draws

instance (s : Screen) (a : Action) : Decidable (a.Redraws s) :=
  match a with
  | .resize _ _ | .restore _ => inferInstanceAs (Decidable (_ ∧ _))
  | .repaintAlways _ | .repaintOnce | .forgetPeer => .isFalse id
  | .erase | .setStyle _ | .resetStyle | .setAttribute _ _ | .setForeground _ | .setBackground _
  | .put _ _ _ | .write _ _ _ | .writeBytes _ _ _ _ _ | .writeBlock _ _ _ _ _ | .blit _ _ _ _ _
  | .fill _ _ _ _ _ | .rect _ _ _ _ _ | .line _ _ _ _ _ => .isTrue trivial

/-- Redrawing touches what should show and the drawing style, and nothing else. -/
theorem Effect.redraws (he : Effect s a t) (ha : a.Redraws s) :
    ∃ target style, t = { s with target, style } := by
  cases he with
  | @draw _ target style => exact ⟨target, style, rfl⟩
  | resize =>
    obtain ⟨rfl, rfl⟩ := ha
    exact ⟨s.target, s.style, s.reshape_same⟩
  | @restore snapshot target =>
    obtain ⟨hwidth, hheight⟩ := ha
    rw [← hwidth, ← hheight, reshape_same]
    exact ⟨target, s.style, rfl⟩
  | repaintAlways => exact ha.elim
  | repaintOnce => exact ha.elim
  | forgetPeer => exact ha.elim

end Screen

namespace Connection

open Telnet (Event)

variable {c d : Connection} {k : Call} {capacity : Nat}

/-! ### Flushes at rest -/

/-- Nothing is queued, nothing differs, and no repaint is due. -/
structure AtRest (c : Connection) : Prop where
  queue : c.outbound.pending = []
  clean : c.screen.isClean = true
  unforced : c.screen.forcing = false

theorem repaintAlways_flush (c : Connection) (capacity : Nat) :
    (c.flush capacity).2.screen.repaintAlways = c.screen.repaintAlways := by
  obtain ⟨shown, peer, position, once, tail, heq⟩ := c.flush_frame capacity
  rw [heq]

theorem atRest_of_flush {o : Screen.Output} (halways : c.screen.repaintAlways = false)
    (h : c.flush capacity = (o, d)) (hpend : o.pending = false) : AtRest d := by
  obtain ⟨hempty, hclean, honce⟩ := flush_of_not_pending h hpend
  have hkept := c.repaintAlways_flush capacity
  rw [h, halways] at hkept
  refine ⟨by rw [hempty]; rfl, hclean, ?_⟩
  rw [Screen.forcing, hkept, honce]
  rfl

theorem AtRest.flush_eq (h : AtRest c) (capacity : Nat) : (c.flush capacity).1 = ⟨[], false⟩ := by
  obtain ⟨hshown, htail⟩ := (Screen.isClean_iff _).mp h.clean
  have htailsize : c.screen.tail.size = 0 := (ByteQueue.pending_eq_nil_iff _).mp htail
  have hqueuesize : c.outbound.size = 0 := (ByteQueue.pending_eq_nil_iff _).mp h.queue
  rcases c.flush_cases capacity with ⟨hlt, -⟩ | ⟨-, hlt, -⟩ | ⟨-, o, t, hsend, heq⟩
  · omega
  · omega
  -- Neither a tail nor a queue is left to stop in, so the flush gets to the screen.
  have hclean : c.screen.withoutTail.isClean = true := (Screen.isClean_iff _).mpr ⟨hshown, rfl⟩
  have hidle := (c.screen.withoutTail.sendAfter_idle_iff capacity
    (c.screen.tail.size + c.outbound.size)).mpr ⟨hclean, fun hforced => ?_⟩
  · rw [ready_of_drained ((ByteQueue.isDrained_iff _).mpr h.queue)] at hsend
    rw [hsend] at hidle
    obtain rfl : o = ⟨[], false⟩ := hidle
    rw [heq, htail, h.queue]
    rfl
  · have hunforced : c.screen.withoutTail.forcing = false := h.unforced
    rw [hunforced] at hforced
    cases hforced

theorem AtRest.flush (h : AtRest c) (capacity : Nat) : AtRest (c.flush capacity).2 := by
  have halways : c.screen.repaintAlways = false := by
    have hunforced := h.unforced
    rw [Screen.forcing, Bool.or_eq_false_iff] at hunforced
    exact hunforced.1
  have hpend : (c.flush capacity).1.pending = false := by rw [h.flush_eq]
  exact atRest_of_flush halways (Prod.eta _).symm hpend

theorem AtRest.answer_eq (h : AtRest c) (capacities : Nat → Nat) (n : Nat) :
    answer Connection.flush capacities c n = ⟨[], false⟩ := by
  have hrest : AtRest (flushed Connection.flush capacities c n) := by
    induction n with
    | zero => exact h
    | succ n ih => exact ih.flush _
  exact hrest.flush_eq _

/-! ### Calls that only redraw -/

/-- Whether an event is not a report of a window in which the screen has another size. -/
def KeepsSize (c : Connection) : Event → Prop
  | .windowSize width height => c.screen.width = (c.settings.clampSize width height).1.toNat ∧
      c.screen.height = (c.settings.clampSize width height).2.toNat
  | _ => True

instance (c : Connection) (e : Event) : Decidable (c.KeepsSize e) :=
  match e with
  | .windowSize _ _ => inferInstanceAs (Decidable (_ ∧ _))
  | .key _ | .negotiation _ _ | .subnegotiation _ _ | .command _ => .isTrue trivial

/-- Whether a call redraws the screen in its size, is a request that is refused or empty, or reads
input without a report of another size. -/
def Call.Redraws (c : Connection) : Call → Prop
  | .screen (.perform a) => a.Redraws c.screen
  | .submit r => (c.submit r).1 = false ∨ r.encode = []
  | .parse bytes => ∀ e ∈ (c.decoder.parse bytes).1, c.KeepsSize e
  | .clearKeyboard => True
  | .screen _ => False
  | .flush _ => False

instance (c : Connection) (k : Call) : Decidable (k.Redraws c) :=
  match k with
  | .screen (.perform a) => inferInstanceAs (Decidable (a.Redraws c.screen))
  | .submit _ => inferInstanceAs (Decidable (_ ∨ _))
  | .parse bytes => inferInstanceAs (Decidable (∀ e ∈ (c.decoder.parse bytes).1, c.KeepsSize e))
  | .clearKeyboard => .isTrue trivial
  | .screen (.flush _ _) | .screen (.finishCell _) | .flush _ => .isFalse id

/-- Whether each of some calls only redraws, where the calls before it lead to. -/
def Redraws (c : Connection) : List Call → Prop
  | [] => True
  | k :: ks => k.Redraws c ∧ (c.call k).2.Redraws ks

instance decidableRedraws (c : Connection) : (calls : List Call) → Decidable (c.Redraws calls)
  | [] => .isTrue trivial
  | k :: ks =>
    have := decidableRedraws (c.call k).2 ks
    inferInstanceAs (Decidable (_ ∧ _))

/-- The connection `d` differs from `c`, which has nothing queued, in no more than what should show,
the drawing style and what the client has sent. -/
structure Redrawn (c d : Connection) : Prop where
  queue : d.outbound.pending = []
  shown : d.screen.shown = c.screen.shown
  tail : d.screen.tail = c.screen.tail
  forcing : d.screen.forcing = c.screen.forcing

theorem Redrawn.refl (h : c.outbound.pending = []) : Redrawn c c :=
  ⟨h, rfl, rfl, rfl⟩

theorem apply_settings (c : Connection) (e : Event) : (c.apply e).settings = c.settings := by
  cases e with
  | negotiation verb option =>
    simp only [apply]
    split <;> rfl
  | _ => rfl

theorem KeepsSize.congr {e : Event} (h : c.KeepsSize e) (hscreen : d.screen = c.screen)
    (hsettings : d.settings = c.settings) : d.KeepsSize e := by
  cases e with
  | windowSize width height =>
    rw [KeepsSize, hscreen, hsettings]
    exact h
  | _ => trivial

theorem screen_apply {e : Event} (h : c.KeepsSize e) : (c.apply e).screen = c.screen := by
  cases e with
  | windowSize width height =>
    obtain ⟨hwidth, hheight⟩ := h
    simp only [apply, resizeTo]
    rw [← hwidth, ← hheight, Screen.reshape_same]
  | negotiation verb option =>
    simp only [apply]
    split <;> rfl
  | _ => rfl

theorem screen_foldl_apply {events : List Event} (h : ∀ e ∈ events, c.KeepsSize e) :
    (events.foldl apply c).screen = c.screen := by
  induction events generalizing c with
  | nil => rfl
  | cons e events ih =>
    have hfirst : (c.apply e).screen = c.screen := screen_apply (h e List.mem_cons_self)
    rw [List.foldl_cons, ih, hfirst]
    exact fun f hf => (h f (List.mem_cons_of_mem _ hf)).congr hfirst (c.apply_settings e)

theorem screen_submit_of_nil {r : Request} (h : r.encode = []) : (c.submit r).2.screen = c.screen := by
  unfold submit
  split
  · rcases r.screenAfter_eq c.screen with hsame | ⟨rfl, -⟩
    · exact hsame
    · cases h
  · rfl

theorem pending_submit_of_nil {r : Request} (h : r.encode = []) :
    (c.submit r).2.outbound.pending = c.outbound.pending := by
  unfold submit
  split
  · rw [h]
    exact List.append_nil _
  · rfl

namespace Redrawn

theorem ofScreen (h : Redrawn c d) {e : Connection} (hqueue : e.outbound.pending = d.outbound.pending)
    (hscreen : e.screen = d.screen) : Redrawn c e :=
  ⟨hqueue.trans h.queue, hscreen ▸ h.shown, hscreen ▸ h.tail, hscreen ▸ h.forcing⟩

theorem call (h : Redrawn c d) (hk : k.Redraws d) : (d.call k).1 = [] ∧ Redrawn c (d.call k).2 := by
  cases k with
  | screen k =>
    cases k with
    | perform a =>
      simp only [Connection.call, Screen.call]
      split
      next t ht =>
        obtain ⟨target, style, rfl⟩ := (Screen.effect_of_perform ht).redraws hk
        exact ⟨rfl, h.queue, h.shown, h.tail, h.forcing⟩
      next => exact ⟨rfl, h⟩
    | flush => exact hk.elim
    | finishCell => exact hk.elim
  | submit r =>
    refine ⟨rfl, ?_⟩
    rcases hk with hrefused | hnil
    · exact h.ofScreen (by rw [Connection.call, submit_of_refused hrefused])
        (by rw [Connection.call, submit_of_refused hrefused])
    · exact h.ofScreen (pending_submit_of_nil hnil) (screen_submit_of_nil hnil)
  | parse bytes =>
    obtain ⟨-, hqueue⟩ := d.parse_frame bytes
    have hscreen : (d.parse bytes).screen = d.screen :=
      screen_foldl_apply (c := { d with decoder := (d.decoder.parse bytes).2 }) hk
    exact ⟨rfl, h.ofScreen (congrArg ByteQueue.pending hqueue) hscreen⟩
  | clearKeyboard => exact ⟨rfl, h.ofScreen rfl rfl⟩
  | flush => exact hk.elim

theorem run (h : Redrawn c d) {calls : List Call} (hcalls : d.Redraws calls) :
    (d.run calls).1 = [] ∧ Redrawn c (d.run calls).2 := by
  induction calls generalizing d with
  | nil => exact ⟨rfl, h⟩
  | cons k ks ih =>
    obtain ⟨hfirst, hothers⟩ := hcalls
    obtain ⟨hsent, hnext⟩ := h.call hfirst
    obtain ⟨hrest, hend⟩ := ih hnext hothers
    refine ⟨?_, hend⟩
    rw [run_cons, hsent, hrest]
    rfl

/-- A frame that is drawn again as it was leaves the connection at rest. -/
theorem atRest (h : Redrawn c d) (hc : AtRest c) (htarget : d.screen.target = c.screen.target) :
    AtRest d := by
  obtain ⟨hshown, htail⟩ := (Screen.isClean_iff _).mp hc.clean
  refine ⟨h.queue, (Screen.isClean_iff _).mpr ⟨?_, ?_⟩, h.forcing.trans hc.unforced⟩
  · rw [h.shown, hshown, htarget]
  · rw [h.tail, htail]

end Redrawn

/-! ### Redrawing -/

/-- Unless it repaints always, a connection has nothing to do once a flush leaves nothing pending. As
long as what should show is the same again behind calls that only redraw, these calls and all flushes
that follow, into buffers of any size, send nothing and leave nothing pending. -/
theorem silent_of_redrawn {o : Screen.Output} (halways : c.screen.repaintAlways = false)
    (hflush : c.flush capacity = (o, d)) (hpend : o.pending = false) :
    d.queued = 0 ∧ d.screen.isClean = true ∧ d.screen.repaintOnce = false ∧
    ∀ calls : List Call, d.Redraws calls → (d.run calls).2.screen.target = d.screen.target →
      (d.run calls).1 = [] ∧ ∀ (capacities : Nat → Nat) (n : Nat),
        answer Connection.flush capacities (d.run calls).2 n = ⟨[], false⟩ := by
  have hrest := atRest_of_flush halways hflush hpend
  obtain ⟨hempty, hclean, honce⟩ := flush_of_not_pending hflush hpend
  refine ⟨?_, hclean, honce, fun calls hcalls htarget => ?_⟩
  · rw [queued, hempty]
    rfl
  obtain ⟨hsent, hredrawn⟩ := (Redrawn.refl hrest.queue).run hcalls
  exact ⟨hsent, fun capacities n => (hredrawn.atRest hrest htarget).answer_eq capacities n⟩

/-- A frame that is written over, erased and refused, and a report of a window that is too small. -/
def erasedFrame : List Call :=
  [.screen (.perform (.put 0 0 0x41)), .screen (.perform .erase), .screen (.perform (.put 2 0 0x41)),
    .screen (.perform (.resize 2 1)), .submit (.bytes []), .submit .negotiation,
    .parse [Telnet.iac, Telnet.sb, Telnet.windowSize, 0, 1, 0, 0, Telnet.iac, Telnet.se]]

theorem silent_of_erasedFrame : ∃ c₀ o d, ofSettings {
      screen := { columns := 2, rows := 1 }
      connection := { outboundCapacity := 1, minColumns := 2, minRows := 1 } } = .ok c₀ ∧
    c₀.flush 100 = (o, d) ∧ o.pending = false ∧ (d.run erasedFrame).1 = [] ∧
    ∀ (capacities : Nat → Nat) (n : Nat),
      answer Connection.flush capacities (d.run erasedFrame).2 n = ⟨[], false⟩ := by
  obtain ⟨c₀, hnew, halways, hpend, hredraws, htarget⟩ : ∃ c₀, ofSettings {
        screen := { columns := 2, rows := 1 }
        connection := { outboundCapacity := 1, minColumns := 2, minRows := 1 } } = .ok c₀ ∧
      c₀.screen.repaintAlways = false ∧ (c₀.flush 100).1.pending = false ∧
      (c₀.flush 100).2.Redraws erasedFrame ∧
      ((c₀.flush 100).2.run erasedFrame).2.screen.target = (c₀.flush 100).2.screen.target :=
    ⟨_, rfl, by decide +kernel, by decide +kernel, by decide +kernel, by decide +kernel⟩
  have hflush : c₀.flush 100 = ((c₀.flush 100).1, (c₀.flush 100).2) := (Prod.eta _).symm
  obtain ⟨-, -, -, hsilent⟩ := silent_of_redrawn halways hflush hpend
  obtain ⟨hsent, hanswer⟩ := hsilent erasedFrame hredraws htarget
  exact ⟨c₀, _, _, hnew, hflush, hpend, hsent, hanswer⟩

end Connection
end RemoteScreen
