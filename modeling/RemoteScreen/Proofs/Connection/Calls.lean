import RemoteScreen.Connection
import RemoteScreen.Proofs.Screen.WellFormed

/-! The calls that a connection takes and the states that they lead to. Three kinds matter to the
bytes that go out: calls that only edit the screen, accepted requests and flushes. -/

namespace RemoteScreen
namespace Connection
open Relation (ReflTransGen)
open Screen (Edit Action)

variable {c : Connection} {capacity : Nat}

/-- What can be done with a connection. -/
inductive Call where
  /-- A call of the screen past the connection. -/
  | screen (k : Screen.Call)
  | submit (r : Request)
  | parse (bytes : List UInt8)
  | clearKeyboard
  | flush (capacity : Nat)
  deriving DecidableEq, Inhabited

/-- Whether a call leaves all sending to the connection's own flush. -/
def Call.Indirect : Call → Prop
  | screen (.perform _) => True
  | screen _ => False
  | _ => True

instance (k : Call) : Decidable k.Indirect :=
  match k with
  | .screen (.perform _) | .submit _ | .parse _ | .clearKeyboard | .flush _ => .isTrue trivial
  | .screen (.flush _ _) | .screen (.finishCell _) => .isFalse id

/-- What a call sends, and the connection after it. -/
def call (c : Connection) : Call → List UInt8 × Connection
  | .screen k => ((c.screen.call k).1, { c with screen := (c.screen.call k).2 })
  | .submit r => ([], (c.submit r).2)
  | .parse bytes => ([], c.parse bytes)
  | .clearKeyboard => ([], c.clearKeyboard)
  | .flush capacity => ((c.flush capacity).1.bytes, (c.flush capacity).2)

/-- What a call puts into the queue. -/
def acceptedBy (c : Connection) : Call → List (List UInt8)
  | .submit r => if (c.submit r).1 then [r.encode] else []
  | _ => []

/-- What some calls put into the queue, in order. -/
def accepted (c : Connection) : List Call → List (List UInt8)
  | [] => []
  | k :: ks => c.acceptedBy k ++ (c.call k).2.accepted ks

/-- What some calls send one after another, and the connection after them. -/
def run (c : Connection) (calls : List Call) : List UInt8 × Connection :=
  runCalls call c calls

theorem run_nil (c : Connection) : c.run [] = ([], c) := rfl

theorem run_cons (c : Connection) (k : Call) (ks : List Call) :
    c.run (k :: ks) = ((c.call k).1 ++ ((c.call k).2.run ks).1, ((c.call k).2.run ks).2) := rfl

theorem run_append (c : Connection) (ks ls : List Call) :
    c.run (ks ++ ls) = ((c.run ks).1 ++ ((c.run ks).2.run ls).1, ((c.run ks).2.run ls).2) :=
  runCalls_append c ks ls

/-! ### Requests and reads -/

theorem submit_of_hasRoom {r : Request} (h : c.HasRoom r.encode.length) :
    c.submit r = (true, { c with
      screen := r.screenAfter c.screen, outbound := c.outbound.push r.encode }) :=
  if_pos h

theorem submit_of_not_hasRoom {r : Request} (h : ¬c.HasRoom r.encode.length) :
    c.submit r = (false, c) :=
  if_neg h

theorem submit_fst (c : Connection) (r : Request) :
    (c.submit r).1 = true ↔ c.HasRoom r.encode.length := by
  by_cases hroom : c.HasRoom r.encode.length
  · exact iff_of_true (congrArg Prod.fst (submit_of_hasRoom hroom)) hroom
  · refine iff_of_false ?_ hroom
    rw [submit_of_not_hasRoom hroom]
    exact Bool.false_ne_true

theorem submit_of_accepted {r : Request} (h : (c.submit r).1 = true) :
    (c.submit r).2 = { c with
      screen := r.screenAfter c.screen, outbound := c.outbound.push r.encode } := by
  rw [submit_of_hasRoom ((c.submit_fst r).mp h)]

theorem submit_of_refused {r : Request} (h : (c.submit r).1 = false) : (c.submit r).2 = c := by
  have hroom : ¬c.HasRoom r.encode.length := by
    rw [← c.submit_fst r, h]
    exact Bool.false_ne_true
  rw [submit_of_not_hasRoom hroom]

theorem Request.screenAfter_eq (r : Request) (s : Screen) :
    r.screenAfter s = s ∨ r = .clearScreen ∧ r.screenAfter s = s.requestRepaint := by
  cases r with
  | clearScreen => exact Or.inr ⟨rfl, rfl⟩
  | _ => exact Or.inl rfl

theorem Request.tail_screenAfter (r : Request) (s : Screen) : (r.screenAfter s).tail = s.tail := by
  cases r <;> rfl

theorem addressable_of_uint16 (w h : UInt16) : Screen.Addressable w.toNat h.toNat := by
  have hle : w.toNat * h.toNat ≤ 65535 * 65535 :=
    Nat.mul_le_mul (Nat.le_of_lt_succ w.toNat_lt) (Nat.le_of_lt_succ h.toNat_lt)
  simp only [Screen.Addressable, Cell.byteCount, maxObjectBytes]
  omega

/-- A report of the window size is a change of size like another. -/
theorem call_resize (c : Connection) (width height : UInt16) :
    c.call (.screen (.perform (.resize (c.settings.clampSize width height).1.toNat
      (c.settings.clampSize width height).2.toNat))) = ([], c.resizeTo width height) := by
  simp only [call, Screen.call, Screen.perform, Screen.resize]
  rw [if_pos (Or.inr (addressable_of_uint16 _ _))]
  rfl

theorem screen_resizeTo (c : Connection) (width height : UInt16) :
    ∃ a : Action, (c.resizeTo width height).screen = (c.screen.call (.perform a)).2 :=
  ⟨_, (congrArg (fun answer => answer.2.screen) (c.call_resize width height)).symm⟩

theorem apply_frame (c : Connection) (e : Telnet.Event) :
    (∃ as : List Action, (c.apply e).screen = (c.screen.run (as.map .perform)).2) ∧
      (c.apply e).outbound = c.outbound := by
  cases e with
  | windowSize width height =>
    obtain ⟨a, ha⟩ := c.screen_resizeTo width height
    exact ⟨⟨[a], ha⟩, rfl⟩
  | negotiation verb option =>
    simp only [apply]
    split <;> exact ⟨⟨[], rfl⟩, rfl⟩
  | _ => exact ⟨⟨[], rfl⟩, rfl⟩

theorem foldl_apply_frame (c : Connection) (events : List Telnet.Event) :
    (∃ as : List Action, (events.foldl apply c).screen = (c.screen.run (as.map .perform)).2) ∧
      (events.foldl apply c).outbound = c.outbound := by
  induction events generalizing c with
  | nil => exact ⟨⟨[], rfl⟩, rfl⟩
  | cons e events ih =>
    obtain ⟨⟨as, hs⟩, ho⟩ := c.apply_frame e
    obtain ⟨⟨bs, hs'⟩, ho'⟩ := ih (c.apply e)
    refine ⟨⟨as ++ bs, ?_⟩, ho'.trans ho⟩
    rw [List.foldl_cons, hs', hs, List.map_append, Screen.run_append]

/-- Reading changes the size of the screen some times, and queues nothing. -/
theorem parse_frame (c : Connection) (bytes : List UInt8) :
    (∃ as : List Action, (c.parse bytes).screen = (c.screen.run (as.map .perform)).2) ∧
      (c.parse bytes).outbound = c.outbound :=
  foldl_apply_frame _ _

/-! ### Kinds of calls -/

/-- The connection `d` has the same queue as `c`, and its screen has been edited. -/
structure Quiet (c d : Connection) : Prop where
  outbound : d.outbound = c.outbound
  screen : ReflTransGen Edit c.screen d.screen

theorem call_cases (c : Connection) {k : Call} (hk : k.Indirect) :
    (∃ d, c.call k = ([], d) ∧ Quiet c d ∧ c.acceptedBy k = []) ∨
    (∃ r, k = .submit r ∧ c.HasRoom r.encode.length) ∨
    (∃ capacity, k = .flush capacity) := by
  cases k with
  | screen k =>
    cases k with
    | perform a =>
      obtain ⟨t, ht, he⟩ := c.screen.call_perform a
      refine Or.inl ⟨{ c with screen := t }, ?_, ⟨rfl, he⟩, rfl⟩
      rw [call, ht]
    | flush => exact hk.elim
    | finishCell => exact hk.elim
  | submit r =>
    by_cases h : c.HasRoom r.encode.length
    · exact Or.inr (Or.inl ⟨r, rfl, h⟩)
    · refine Or.inl ⟨c, ?_, ⟨rfl, .refl⟩, ?_⟩
      · rw [call, submit_of_not_hasRoom h]
      · rw [acceptedBy, submit_of_not_hasRoom h]
        rfl
  | parse bytes =>
    obtain ⟨⟨as, hs⟩, ho⟩ := c.parse_frame bytes
    obtain ⟨t, ht, he⟩ := c.screen.run_perform as
    rw [ht] at hs
    exact Or.inl ⟨_, rfl, ⟨ho, hs ▸ he⟩, rfl⟩
  | clearKeyboard => exact Or.inl ⟨_, rfl, ⟨rfl, .refl⟩, rfl⟩
  | flush capacity => exact Or.inr (Or.inr ⟨capacity, rfl⟩)

/-! ### Flushes -/

/-- The screen as it is once the queue has been sent. -/
def ready (c : Connection) : Screen :=
  if c.outbound.isDrained then c.screen else c.screen.forgetPeer

theorem ready_of_drained (h : c.outbound.isDrained = true) : c.ready = c.screen := if_pos h

theorem ready_of_not_drained (h : ¬c.outbound.isDrained = true) : c.ready = c.screen.forgetPeer :=
  if_neg h

theorem ready_setTail (c : Connection) (tail : ByteQueue) :
    { c with screen := { c.screen with tail } }.ready = { c.ready with tail } := by
  unfold ready
  split <;> rfl

/-- As long as the queue is not drained, the screen is to forget its peer. -/
theorem ready_send {n : Nat} (h : n < c.outbound.size) :
    { c with screen := c.screen.withoutTail, outbound := (c.outbound.send n).2 }.ready =
      c.ready.withoutTail := by
  have hdr : ¬c.outbound.isDrained = true := by
    rw [ByteQueue.isDrained, decide_eq_true_eq]
    exact Nat.ne_of_gt (Nat.zero_lt_of_lt h)
  have hdr' : ¬(c.outbound.send n).2.isDrained = true := by
    rw [ByteQueue.isDrained, decide_eq_true_eq, ByteQueue.size_send]
    exact Nat.ne_of_gt (Nat.sub_pos_of_lt h)
  rw [ready_of_not_drained hdr, ready_of_not_drained hdr']
  rfl

theorem forgetPeer_ready (c : Connection) : c.ready.forgetPeer = c.screen.forgetPeer := by
  unfold ready
  split <;> rfl

theorem wellFormed_ready (h : c.screen.WellFormed) : c.ready.WellFormed := by
  unfold ready
  split
  · exact h
  · exact h.forgetPeer

/-- A flush stops within the tail of a split cell, or within the queue, or it goes on to the
screen. -/
theorem flush_cases (c : Connection) (capacity : Nat) :
    (capacity < c.screen.tail.size ∧
      c.flush capacity = (⟨c.screen.tail.pending.take capacity, true⟩,
        { c with screen := { c.screen with tail := (c.screen.tail.send capacity).2 } })) ∨
    (c.screen.tail.size ≤ capacity ∧ capacity - c.screen.tail.size < c.outbound.size ∧
      c.flush capacity = (⟨c.screen.tail.pending ++
          c.outbound.pending.take (capacity - c.screen.tail.size), true⟩,
        { c with
          screen := c.screen.withoutTail
          outbound := (c.outbound.send (capacity - c.screen.tail.size)).2 })) ∨
    (c.screen.tail.size + c.outbound.size ≤ capacity ∧ ∃ o t,
      c.ready.withoutTail.sendAfter capacity (c.screen.tail.size + c.outbound.size) = (o, t) ∧
      c.flush capacity = (⟨c.screen.tail.pending ++ c.outbound.pending ++ o.bytes, o.pending⟩,
        { c with screen := t, outbound := .empty })) := by
  unfold flush
  rw [Screen.finishCell_eq]
  by_cases htail : capacity < c.screen.tail.size
  · left
    rw [decide_eq_true htail]
    exact ⟨htail, rfl⟩
  right
  have hle : c.screen.tail.size ≤ capacity := Nat.le_of_not_lt htail
  rw [decide_eq_false htail, Screen.tail_send_of_le hle, ByteQueue.take_pending hle]
  simp only [ByteQueue.length_pending, Bool.false_eq_true, ↓reduceIte]
  by_cases hqueue : capacity - c.screen.tail.size < c.outbound.size
  · left
    have hnot : (c.outbound.send (capacity - c.screen.tail.size)).2.isDrained = false := by
      rw [ByteQueue.isDrained, ByteQueue.size_send]
      simp only [decide_eq_false_iff_not]
      omega
    rw [hnot]
    exact ⟨hle, hqueue, rfl⟩
  right
  have hle' : c.outbound.size ≤ capacity - c.screen.tail.size := Nat.le_of_not_lt hqueue
  have hsend : (c.outbound.send (capacity - c.screen.tail.size)).2 = .empty := if_pos hle'
  have hready : (if c.outbound.isDrained = true then c.screen.withoutTail
      else c.screen.withoutTail.forgetPeer) = c.ready.withoutTail := by
    unfold ready
    split <;> rfl
  refine ⟨by omega, _, _, rfl, ?_⟩
  rw [ByteQueue.send_fst, ByteQueue.take_pending hle', hsend, hready, List.length_append, ByteQueue.length_pending,
    ByteQueue.length_pending]
  rfl

theorem flush_frame (c : Connection) (capacity : Nat) :
    ∃ shown peer position once tail, (c.flush capacity).2.screen =
      { c.screen with shown, peer, position, repaintOnce := once, tail } := by
  rcases c.flush_cases capacity with ⟨-, heq⟩ | ⟨-, -, heq⟩ | ⟨-, o, t, hsend, heq⟩
  · rw [heq]
    exact ⟨_, _, _, _, _, rfl⟩
  · rw [heq]
    exact ⟨_, _, _, _, _, rfl⟩
  · have hframe := c.ready.withoutTail.sendAfter_frame capacity
      (c.screen.tail.size + c.outbound.size)
    rw [hsend] at hframe
    obtain ⟨shown, peer, position, once, tail, rfl⟩ := hframe
    rw [heq]
    unfold ready
    split <;> exact ⟨shown, peer, position, once, tail, rfl⟩

/-! ### What the settings fix -/

/-- The connection has these settings, and its decoder keeps payloads of the length that they allow.
-/
structure Configured (s : ConnectionSettings) (c : Connection) : Prop where
  settings : c.settings = s
  limit : c.decoder.limit = s.maxSubnegotiation.toNat

variable {settings : ConnectionSettings}

theorem Configured.apply (h : Configured settings c) (e : Telnet.Event) :
    Configured settings (c.apply e) := by
  cases e with
  | negotiation verb option =>
    simp only [Connection.apply]
    split <;> exact ⟨h.settings, h.limit⟩
  | _ => exact ⟨h.settings, h.limit⟩

theorem Configured.foldl_apply (h : Configured settings c) (events : List Telnet.Event) :
    Configured settings (events.foldl Connection.apply c) := by
  induction events generalizing c with
  | nil => exact h
  | cons e events ih => exact ih (h.apply e)

theorem Configured.submit (h : Configured settings c) (r : Request) :
    Configured settings (c.submit r).2 := by
  unfold Connection.submit
  split <;> exact ⟨h.settings, h.limit⟩

theorem Configured.call (h : Configured settings c) (k : Call) :
    Configured settings (c.call k).2 := by
  cases k with
  | submit r => exact h.submit r
  | parse bytes =>
    have hread : Configured settings { c with decoder := (c.decoder.parse bytes).2 } :=
      ⟨h.settings, h.limit⟩
    exact hread.foldl_apply _
  | flush capacity =>
    rcases c.flush_cases capacity with ⟨-, heq⟩ | ⟨-, -, heq⟩ | ⟨-, o, t, -, heq⟩
    all_goals
      rw [Connection.call, heq]
      exact ⟨h.settings, h.limit⟩
  | screen _ => exact ⟨h.settings, h.limit⟩
  | clearKeyboard => exact ⟨h.settings, h.limit⟩

theorem Configured.run (h : Configured settings c) (ks : List Call) :
    Configured settings (c.run ks).2 := by
  induction ks generalizing c with
  | nil => exact h
  | cons k ks ih => exact ih (h.call k)

/-- A connection as it is made, before it negotiates. -/
def bare (screen : Screen) (settings : ConnectionSettings) : Connection where
  screen := screen
  decoder := { limit := settings.maxSubnegotiation.toNat }
  keyboard := {}
  settings := settings
  outbound := .empty
  reportsWindowSize := false

theorem create_inv {screen : Screen} (h : create screen settings = .ok c) :
    c = bare screen settings ∨ c = ((bare screen settings).submit .negotiation).2 := by
  simp only [create] at h
  split at h
  · cases h
    split
    · exact Or.inr rfl
    · exact Or.inl rfl
  · cases h

theorem configured_of_create {screen : Screen} (h : create screen settings = .ok c) :
    Configured settings c := by
  have hbare : Configured settings (bare screen settings) := ⟨rfl, rfl⟩
  rcases create_inv h with rfl | rfl
  · exact hbare
  · exact hbare.submit .negotiation

/-! ### Reachable connections -/

/-- The connections that calls lead to, those of the screen included. A screen can be put in the
place of another one. -/
inductive Reachable : Connection → Prop where
  | create {c : Connection} {screen : Screen} {settings : ConnectionSettings}
      (hs : screen.Reachable) (h : create screen settings = .ok c) : Reachable c
  | call {c : Connection} (h : Reachable c) (k : Call) : Reachable (c.call k).2
  | replace {c : Connection} {screen : Screen} (h : Reachable c) (hs : screen.Reachable) :
      Reachable { c with screen }

/-- What is queued as a connection is made. -/
def openingWrites (settings : ConnectionSettings) : List (List UInt8) :=
  if settings.negotiateOnCreate ∧ negotiation.length ≤ settings.outboundCapacity.toNat then
    [negotiation]
  else []

theorem create_frame {screen : Screen} {settings : ConnectionSettings}
    (h : create screen settings = .ok c) :
    c.screen = screen ∧ c.outbound.pending = (openingWrites settings).flatten := by
  simp only [create] at h
  by_cases hmax : settings.outboundCapacity.toNat ≤ maxObjectBytes
  · rw [if_pos hmax] at h
    cases hn : settings.negotiateOnCreate with
    | false =>
      rw [hn] at h
      cases h
      exact ⟨rfl, by simp [openingWrites, hn]⟩
    | true =>
      rw [hn] at h
      simp only [↓reduceIte, submit] at h
      split at h
      next hr =>
        have hcap : negotiation.length ≤ settings.outboundCapacity.toNat := by
          simpa [HasRoom, queued, Request.encode] using hr
        cases h
        exact ⟨rfl, by simp [openingWrites, hn, hcap, Request.encode]⟩
      next hr =>
        have hcap : ¬negotiation.length ≤ settings.outboundCapacity.toNat := by
          simpa [HasRoom, queued, Request.encode] using hr
        cases h
        exact ⟨rfl, by simp [openingWrites, hcap]⟩
  · rw [if_neg hmax] at h
    cases h

/-- Two 16-bit extents are addressable, so only the queue can be too large. -/
theorem exists_screen (s : Settings) : ∃ screen,
    Screen.create s.screen.columns.toNat s.screen.rows.toNat s.screen.style = .ok screen ∧
    ofSettings s = create screen s.connection := by
  obtain ⟨screen, hscreen⟩ : ∃ screen,
      Screen.create s.screen.columns.toNat s.screen.rows.toNat s.screen.style = .ok screen :=
    ⟨_, if_pos (addressable_of_uint16 _ _)⟩
  refine ⟨screen, hscreen, ?_⟩
  rw [ofSettings, hscreen]
  rfl

theorem ofSettings_eq (s : Settings) :
    ∃ screen, ofSettings s = create screen s.connection := by
  obtain ⟨screen, -, heq⟩ := exists_screen s
  exact ⟨screen, heq⟩

theorem exists_ofSettings_iff (s : Settings) :
    (∃ c, ofSettings s = .ok c) ↔ s.connection.outboundCapacity.toNat ≤ maxObjectBytes := by
  obtain ⟨screen, heq⟩ := ofSettings_eq s
  rw [heq, create]
  dsimp only
  split
  next hle => exact iff_of_true ⟨_, rfl⟩ hle
  next hlt =>
    refine iff_of_false ?_ hlt
    rintro ⟨c, hc⟩
    cases hc

theorem screen_reachable_call (h : c.screen.Reachable) (k : Call) :
    (c.call k).2.screen.Reachable := by
  cases k with
  | screen k => exact h.call k
  | submit r =>
    by_cases hr : c.HasRoom r.encode.length
    · rw [call, submit_of_hasRoom hr]
      show (r.screenAfter c.screen).Reachable
      rcases r.screenAfter_eq c.screen with heq | ⟨-, heq⟩
      · rw [heq]
        exact h
      · rw [heq]
        exact h.call (.perform .repaintOnce)
    · rw [call, submit_of_not_hasRoom hr]
      exact h
  | parse bytes =>
    obtain ⟨⟨as, hs⟩, -⟩ := c.parse_frame bytes
    exact hs ▸ h.run _
  | clearKeyboard => exact h
  | flush capacity =>
    have hready : c.ready.Reachable := by
      unfold ready
      split
      · exact h
      · exact h.call (.perform .forgetPeer)
    rcases c.flush_cases capacity with ⟨-, heq⟩ | ⟨-, -, heq⟩ | ⟨hle, o, t, hsend, heq⟩
    · rw [call, heq]
      exact h.call (.finishCell capacity)
    · rw [call, heq]
      exact h.withoutTail
    · rw [call, heq]
      have ht := hready.withoutTail.sendAfter hle
      rwa [hsend] at ht

theorem screen_reachable (h : Reachable c) : c.screen.Reachable := by
  induction h with
  | create hs h => exact (create_frame h).1 ▸ hs
  | call _ k ih => exact screen_reachable_call ih k
  | replace _ hs => exact hs

theorem Reachable.run (h : Reachable c) (ks : List Call) : Reachable (c.run ks).2 := by
  induction ks generalizing c with
  | nil => exact h
  | cons k ks ih => exact ih (h.call k)

/-- A new connection with a screen that has sent nothing, whatever has been drawn on it. -/
inductive Opened (settings : ConnectionSettings) : Connection → Prop where
  | create {width height : Nat} {style : Cell} {screen : Screen} {c : Connection}
      (hs : Screen.create width height style = .ok screen) (before : List Action)
      (hc : create (screen.run (before.map .perform)).2 settings = .ok c) : Opened settings c

theorem Opened.reachable {settings : ConnectionSettings} (h : Opened settings c) : Reachable c := by
  cases h with
  | create hs before hc => exact .create ((Screen.Reachable.create hs).run _) hc

/-- Nothing of the screen of a new connection has been sent, and its queue holds the opening. -/
theorem Opened.frame {settings : ConnectionSettings} (h : Opened settings c) :
    (∃ width height style screen, Screen.create width height style = .ok screen ∧
      ReflTransGen Edit screen c.screen) ∧
    c.outbound.pending = (openingWrites settings).flatten := by
  cases h with
  | create hs before hc =>
    obtain ⟨t, ht, hedits⟩ := Screen.run_perform _ before
    rw [ht] at hc
    obtain ⟨hscreen, hout⟩ := create_frame hc
    exact ⟨⟨_, _, _, _, hs, hscreen ▸ hedits⟩, hout⟩

end Connection
end RemoteScreen
