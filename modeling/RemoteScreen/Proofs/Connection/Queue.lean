import RemoteScreen.Proofs.Connection.Calls
import RemoteScreen.Proofs.Screen.Pass

/-! The queue of a connection, and what a connection has sent and accepted since it was made
(`History`). A flush takes bytes off the front of the queue, between the tail of a split cell and the
cells behind it (`flush_parts`), and what it has taken makes room at once. No call stores more than the
settings allow (`Bounded`). -/

namespace RemoteScreen

namespace ByteQueue

variable {capacity : Nat} {q : ByteQueue} {bytes : List UInt8}

/-- The queue has sent no more than it stores, and stores no more than `capacity` bytes. -/
structure Bounded (capacity : Nat) (q : ByteQueue) : Prop where
  valid : q.Valid
  stored : q.stored.length ≤ capacity

namespace Bounded

theorem empty : Bounded capacity .empty :=
  ⟨.empty, Nat.zero_le _⟩

theorem size_le (h : Bounded capacity q) : q.size ≤ capacity :=
  Nat.le_trans (Nat.sub_le _ _) h.stored

/-- What has been sent is forgotten first, so it takes no room. -/
theorem push (h : q.size + bytes.length ≤ capacity) : Bounded capacity (q.push bytes) := by
  refine ⟨.push q bytes, ?_⟩
  rw [ByteQueue.push, List.length_append, length_pending]
  exact h

theorem send (h : Bounded capacity q) (room : Nat) : Bounded capacity (q.send room).2 := by
  refine ⟨h.valid.send room, ?_⟩
  unfold ByteQueue.send
  split
  · exact Nat.zero_le _
  · exact h.stored

end Bounded
end ByteQueue

namespace Connection

variable {c d : Connection} {settings : ConnectionSettings} {sent : List UInt8}
  {taken : List Request} {r : Request}

/-! ### One call -/

/-- A flush sends a part of the queue, with what the screen sends before and behind it. -/
theorem flush_parts (c : Connection) (capacity : Nat) :
    ∃ front back, (c.flush capacity).1.bytes =
        front ++ c.outbound.pending.take (capacity - c.screen.tail.size) ++ back ∧
      (c.flush capacity).2.outbound.pending =
        c.outbound.pending.drop (capacity - c.screen.tail.size) ∧
      c.screen.Gives (front ++ back) (c.flush capacity).2.screen := by
  rcases c.flush_cases capacity with ⟨hlt, heq⟩ | ⟨hle, -, heq⟩ | ⟨hle, o, t, hsend, heq⟩
  · have hroom : capacity - c.screen.tail.size = 0 := Nat.sub_eq_zero_of_le (Nat.le_of_lt hlt)
    rw [heq, hroom]
    refine ⟨c.screen.tail.pending.take capacity, [], ?_, rfl, .of_tail ?_⟩
    · rw [List.take_zero, List.append_nil, List.append_nil]
    · rw [List.append_nil, ByteQueue.pending_send, List.take_append_drop]
  · rw [heq]
    refine ⟨c.screen.tail.pending, [], (List.append_nil _).symm, ByteQueue.pending_send _ _,
      .of_tail ?_⟩
    rw [List.append_nil]
    exact List.append_nil _
  · -- The whole queue goes out, and the screen goes on behind it without a tail.
    have hfits : c.outbound.size ≤ capacity - c.screen.tail.size := by omega
    rw [heq, ByteQueue.take_pending hfits, ByteQueue.drop_pending hfits]
    refine ⟨c.screen.tail.pending, o.bytes, rfl, rfl, ?_⟩
    have hgives := c.ready.withoutTail.sendAfter_gives capacity
      (c.screen.tail.size + c.outbound.size)
    rw [hsend] at hgives
    obtain ⟨es, hes, hbytes⟩ := hgives
    refine ⟨es, fun e he => ?_, ?_⟩
    · have hsequence := hes e he
      unfold ready at hsequence
      split at hsequence <;> exact hsequence
    · rw [List.append_assoc, hbytes]
      rfl

theorem Configured.bounded_submit (hc : Configured settings c)
    (h : c.outbound.Bounded settings.outboundCapacity.toNat) (r : Request) :
    (c.submit r).2.outbound.Bounded settings.outboundCapacity.toNat := by
  by_cases hroom : c.HasRoom r.encode.length
  · rw [submit_of_hasRoom hroom]
    rw [HasRoom, hc.settings] at hroom
    exact .push hroom
  · rw [submit_of_not_hasRoom hroom]
    exact h

theorem Configured.bounded_call (hc : Configured settings c)
    (h : c.outbound.Bounded settings.outboundCapacity.toNat) (k : Call) :
    (c.call k).2.outbound.Bounded settings.outboundCapacity.toNat := by
  cases k with
  | screen k => exact h
  | submit r => exact hc.bounded_submit h r
  | parse bytes =>
    obtain ⟨-, hsame⟩ := c.parse_frame bytes
    rw [Connection.call, hsame]
    exact h
  | clearKeyboard => exact h
  | flush capacity =>
    rw [Connection.call]
    rcases c.flush_cases capacity with ⟨-, heq⟩ | ⟨-, -, heq⟩ | ⟨-, o, t, -, heq⟩
    · rw [heq]
      exact h
    · rw [heq]
      exact h.send _
    · rw [heq]
      exact .empty

theorem bounded_of_create {screen : Screen} (h : create screen settings = .ok c) :
    c.outbound.Bounded settings.outboundCapacity.toNat := by
  have hbare : Configured settings (bare screen settings) := ⟨rfl, rfl⟩
  rcases create_inv h with rfl | rfl
  · exact .empty
  · exact hbare.bounded_submit .empty .negotiation

/-! ### Histories -/

/-- What a connection accepts as it is made. -/
def opening (settings : ConnectionSettings) : List Request :=
  if settings.negotiateOnCreate ∧ negotiation.length ≤ settings.outboundCapacity.toNat then
    [.negotiation]
  else []

/-- The request of a call, if it is accepted. -/
def takenBy (c : Connection) : Call → List Request
  | .submit r => if (c.submit r).1 then [r] else []
  | _ => []

/-- The requests that are accepted in some calls, in order. -/
def takenIn (c : Connection) : List Call → List Request
  | [] => []
  | k :: ks => c.takenBy k ++ (c.call k).2.takenIn ks

/-- A connection that was made with some settings, all that it has sent since, and all requests that
it has accepted. -/
inductive History (settings : ConnectionSettings) :
    List UInt8 → List Request → Connection → Prop where
  | create {c : Connection} {screen : Screen} (hs : screen.Reachable)
      (h : create screen settings = .ok c) : History settings [] (opening settings) c
  | call {c : Connection} {sent : List UInt8} {taken : List Request}
      (h : History settings sent taken c) (k : Call) :
      History settings (sent ++ (c.call k).1) (taken ++ c.takenBy k) (c.call k).2
  /-- Another screen is put in the place of the connection's own. -/
  | replace {c : Connection} {sent : List UInt8} {taken : List Request} {screen : Screen}
      (h : History settings sent taken c) (hs : screen.Reachable) :
      History settings sent taken { c with screen }

theorem history_of_ofSettings {s : Settings} (h : ofSettings s = .ok c) :
    History s.connection [] (opening s.connection) c := by
  obtain ⟨screen, hscreen, heq⟩ := exists_screen s
  exact .create (.create hscreen) (heq ▸ h)

theorem History.run (h : History settings sent taken c) (ks : List Call) :
    History settings (sent ++ (c.run ks).1) (taken ++ c.takenIn ks) (c.run ks).2 := by
  induction ks generalizing c sent taken with
  | nil =>
    rw [run_nil, takenIn, List.append_nil, List.append_nil]
    exact h
  | cons k ks ih =>
    rw [run_cons, takenIn, ← List.append_assoc, ← List.append_assoc]
    exact ih (h.call k)

theorem History.reachable (h : History settings sent taken c) : Reachable c := by
  induction h with
  | create hs h => exact .create hs h
  | call _ k ih => exact ih.call k
  | replace _ hs ih => exact ih.replace hs

theorem History.configured (h : History settings sent taken c) : Configured settings c := by
  induction h with
  | create _ h => exact configured_of_create h
  | call _ k ih => exact ih.call k
  | replace _ _ ih => exact ⟨ih.settings, ih.limit⟩

theorem History.bounded (h : History settings sent taken c) :
    c.outbound.Bounded settings.outboundCapacity.toNat := by
  induction h with
  | create _ h => exact bounded_of_create h
  | call h k ih => exact h.configured.bounded_call ih k
  | replace _ _ ih => exact ih

/-! ### Room -/

/-- However a connection has been used, it has sent no more of its queue than it stores, and stores no
more than its settings allow. It accepts a request exactly if the bytes that are queued and those of the
request are no more than that; then the latter are queued behind the others, and only a clearing does
more, which starts a repaint. A request that is not accepted changes nothing. What a flush sends of the
queue makes room for as many bytes at once. -/
theorem queues_within_capacity (h : History settings sent taken c) :
    let capacity := settings.outboundCapacity.toNat
    c.outbound.sent ≤ c.outbound.stored.length ∧ c.outbound.stored.length ≤ capacity ∧
    c.queued ≤ capacity ∧
    (∀ r : Request, ((c.submit r).1 = true ↔ c.queued + r.encode.length ≤ capacity) ∧
      ((c.submit r).1 = true →
        (c.submit r).2.outbound.pending = c.outbound.pending ++ r.encode ∧
        (c.submit r).2.outbound.stored.length ≤ capacity ∧
        (c.submit r).2 = { c with
          outbound := (c.submit r).2.outbound
          screen := if r = .clearScreen then c.screen.requestRepaint else c.screen }) ∧
      ((c.submit r).1 = false → (c.submit r).2 = c)) ∧
    ∀ n : Nat, ∃ front part back, (c.flush n).1.bytes = front ++ part ++ back ∧
      part ++ (c.flush n).2.outbound.pending = c.outbound.pending ∧
      ∀ r : Request, ((c.flush n).2.submit r).1 = true ↔
        c.queued + r.encode.length ≤ capacity + part.length := by
  intro capacity
  have hbounded := h.bounded
  have hroom : ∀ r, (c.submit r).1 = true ↔ c.queued + r.encode.length ≤ capacity := by
    intro r
    rw [c.submit_fst r, HasRoom, h.configured.settings]
  refine ⟨hbounded.valid, hbounded.stored, hbounded.size_le,
    fun r => ⟨hroom r, fun hacc => ?_, submit_of_refused⟩, fun n => ?_⟩
  · refine ⟨?_, (h.configured.bounded_submit hbounded r).stored, ?_⟩
    · rw [submit_of_accepted hacc, ByteQueue.pending_push]
    · rw [submit_of_accepted hacc]
      cases r <;> rfl
  · obtain ⟨front, back, hbytes, hpending, -⟩ := c.flush_parts n
    have hsplit : c.outbound.pending.take (n - c.screen.tail.size) ++
        (c.flush n).2.outbound.pending = c.outbound.pending := by
      rw [hpending, List.take_append_drop]
    have hlength := congrArg List.length hsplit
    rw [List.length_append, ByteQueue.length_pending, ByteQueue.length_pending] at hlength
    have hsettings : (c.flush n).2.settings = settings := (h.configured.call (.flush n)).settings
    refine ⟨front, _, back, hbytes, hsplit, fun r => ?_⟩
    rw [submit_fst, HasRoom, hsettings, queued, queued]
    omega

/-- Three bytes of four are taken, a clearing is not, and there is room for three more once two are
sent. -/
theorem queues_within_capacity_of_four :
    let settings : Settings := {
      screen := { columns := 1, rows := 1 }, connection := { outboundCapacity := 4 } }
    let calls : List Call := [.flush 100, .submit (.text "abc"), .submit .clearScreen, .flush 2]
    ∃ c₀ c sent, ofSettings settings = .ok c₀ ∧ c₀.run calls = (sent, c) ∧
      History settings.connection sent [.text "abc"] c ∧
      c.outbound = ⟨[0x61, 0x62, 0x63], 2⟩ ∧ c.screen.repaintOnce = false ∧
      (c.submit (.text "def")).1 = true ∧
      (c.submit (.text "def")).2.outbound.pending = [0x63, 0x64, 0x65, 0x66] ∧
      (c.submit .clearScreen).2 = c := by
  intro settings calls
  obtain ⟨c₀, hnew, htaken, hqueue, honce⟩ : ∃ c₀, ofSettings settings = .ok c₀ ∧
      opening settings.connection ++ c₀.takenIn calls = [.text "abc"] ∧
      (c₀.run calls).2.outbound = ⟨[0x61, 0x62, 0x63], 2⟩ ∧
      (c₀.run calls).2.screen.repaintOnce = false :=
    ⟨_, rfl, by decide +kernel, by decide +kernel, by decide +kernel⟩
  have h := (history_of_ofSettings hnew).run calls
  rw [htaken] at h
  obtain ⟨-, -, -, hsubmit, -⟩ := queues_within_capacity h
  obtain ⟨hroom, hpush, -⟩ := hsubmit (.text "def")
  obtain ⟨hnoroom, -, hkept⟩ := hsubmit .clearScreen
  rw [queued, hqueue] at hroom hnoroom
  have haccepted := hroom.mpr (by decide +kernel)
  have hrefused : ¬((c₀.run calls).2.submit .clearScreen).1 = true :=
    fun hacc => absurd (hnoroom.mp hacc) (by decide +kernel)
  obtain ⟨hbehind, -, -⟩ := hpush haccepted
  rw [hqueue] at hbehind
  refine ⟨c₀, (c₀.run calls).2, (c₀.run calls).1, hnew, (Prod.eta _).symm, h, hqueue, honce,
    haccepted, hbehind.trans (by decide +kernel), hkept (Bool.eq_false_iff.mpr hrefused)⟩

end Connection
end RemoteScreen
