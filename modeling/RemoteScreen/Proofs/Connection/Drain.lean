import RemoteScreen.Proofs.Connection.Calls
import RemoteScreen.Proofs.Screen.Drain

/-! What a connection still has to send: the tail of a split cell, the queue, and then what its
screen sends once the queue is out. No flush changes that but by taking its share (`flush_takes`), so
neither the bytes nor the state behind them depend on the buffers. -/

namespace RemoteScreen
namespace Connection

variable {c d e : Connection} {bytes : List UInt8} {capacity : Nat}

/-- What a connection sends before nothing is pending, and what it is then. -/
def Left (c : Connection) (bytes : List UInt8) (d : Connection) : Prop :=
  c.screen.WellFormed ∧ ∃ rest t, bytes = c.screen.tail.pending ++ c.outbound.pending ++ rest ∧
    c.ready.withoutTail.Leads rest t ∧ d = { c with screen := t, outbound := .empty }

/-- A bound on the flushes to come, as the screen counts its calls. -/
def weight (c : Connection) (bytes : List UInt8) : Nat :=
  c.screen.weight bytes

theorem exists_left (hw : c.screen.WellFormed) : ∃ bytes d, Left c bytes d := by
  obtain ⟨rest, t, h⟩ := Screen.exists_leads ((wellFormed_ready hw).setTail .empty) rfl
  exact ⟨_, _, hw, rest, t, rfl, h, rfl⟩

theorem position_ready (c : Connection) : c.ready.position = c.screen.position := by
  unfold ready
  split <;> rfl

/-- A flush that sends a byte or ends a pass, and keeps the rest, takes its share. -/
theorem takes_of_rest {o : Screen.Output} {rest : List UInt8} (hp : o.pending = true)
    (hl : Left e rest d)
    (hprog : 0 < o.bytes.length ∨ c.screen.position ≠ 0 ∧ e.screen.position = 0) :
    Takes Left weight c (o.bytes ++ rest) d (o, e) :=
  Or.inr ⟨hp, rest, rfl, hl, Screen.weight_lt hprog⟩

theorem takes_of_tail (h : Left c bytes d) (hcap : 0 < capacity) (hlt : capacity < c.screen.tail.size) :
    Takes Left weight c bytes d (⟨c.screen.tail.pending.take capacity, true⟩,
      { c with screen := { c.screen with tail := (c.screen.tail.send capacity).2 } }) := by
  obtain ⟨hw, rest, t, rfl, hl, rfl⟩ := h
  have hsplit : c.screen.tail.pending ++ c.outbound.pending ++ rest =
      c.screen.tail.pending.take capacity ++
        ((c.screen.tail.send capacity).2.pending ++ c.outbound.pending ++ rest) := by
    rw [ByteQueue.pending_send]
    simp only [← List.append_assoc, List.take_append_drop]
  have hsent : 0 < (c.screen.tail.pending.take capacity).length := by
    rw [List.length_take, ByteQueue.length_pending]
    exact Nat.lt_min.mpr ⟨hcap, Nat.zero_lt_of_lt hlt⟩
  rw [hsplit]
  refine takes_of_rest rfl ⟨hw.setTail (hw.tail_valid.send _), rest, t, rfl, ?_, rfl⟩ (Or.inl hsent)
  rw [ready_setTail]
  exact hl

theorem takes_of_queue (h : Left c bytes d) (hcap : 0 < capacity) {n : Nat}
    (hn : c.screen.tail.size + n = capacity) (hlt : n < c.outbound.size) :
    Takes Left weight c bytes d (⟨c.screen.tail.pending ++ c.outbound.pending.take n, true⟩,
      { c with screen := c.screen.withoutTail, outbound := (c.outbound.send n).2 }) := by
  obtain ⟨hw, rest, t, rfl, hl, rfl⟩ := h
  have hsplit : c.screen.tail.pending ++ c.outbound.pending ++ rest =
      c.screen.tail.pending ++ c.outbound.pending.take n ++
        ((c.outbound.send n).2.pending ++ rest) := by
    rw [ByteQueue.pending_send]
    simp only [List.append_assoc]
    rw [← List.append_assoc (List.take _ _), List.take_append_drop]
  have hsent : 0 < (c.screen.tail.pending ++ c.outbound.pending.take n).length := by
    rw [List.length_append, List.length_take, ByteQueue.length_pending, ByteQueue.length_pending,
      Nat.min_eq_left (Nat.le_of_lt hlt), hn]
    exact hcap
  rw [hsplit]
  refine takes_of_rest rfl ⟨hw.setTail .empty, rest, t, rfl, ?_, rfl⟩ (Or.inl hsent)
  rw [ready_send hlt]
  exact hl

theorem takes_of_screen (h : Left c bytes d) (hcap : 0 < capacity) {o : Screen.Output} {u : Screen}
    (hsend : c.ready.withoutTail.sendAfter capacity (c.screen.tail.size + c.outbound.size) = (o, u)) :
    Takes Left weight c bytes d (⟨c.screen.tail.pending ++ c.outbound.pending ++ o.bytes, o.pending⟩,
      { c with screen := u, outbound := .empty }) := by
  obtain ⟨hw, rest, t, rfl, hl, rfl⟩ := h
  have hready : c.ready.withoutTail.WellFormed := (wellFormed_ready hw).setTail .empty
  obtain ⟨o', u', heq, hcases⟩ := Screen.sendAfter_leads hready hl hcap
    (c.screen.tail.size + c.outbound.size)
  have hwu := hready.sendAfter capacity (c.screen.tail.size + c.outbound.size)
  cases hsend.symm.trans heq
  rw [hsend] at hwu
  rcases hcases with ⟨hp, hbytes, rfl⟩ | ⟨hp, rest', hsplit, hl', hprog⟩
  · refine Or.inl ⟨hp, ?_, rfl⟩
    rw [hbytes]
    rfl
  · have hall : c.screen.tail.pending ++ c.outbound.pending ++ rest =
        c.screen.tail.pending ++ c.outbound.pending ++ o.bytes ++ (u.tail.pending ++ [] ++ rest') := by
      rw [List.append_nil, List.append_assoc _ o.bytes, ← hsplit]
      rfl
    rw [hall]
    refine takes_of_rest hp ⟨hwu, rest', t, rfl, hl', rfl⟩ ?_
    rw [List.length_append, List.length_append, ByteQueue.length_pending, ByteQueue.length_pending,
      ← c.position_ready]
    exact hprog

theorem flush_takes (h : Left c bytes d) (hcap : 0 < capacity) :
    Takes Left weight c bytes d (c.flush capacity) := by
  rcases c.flush_cases capacity with ⟨hlt, heq⟩ | ⟨hle, hlt, heq⟩ | ⟨-, o, u, hsend, heq⟩
  · rw [heq]
    exact takes_of_tail h hcap hlt
  · rw [heq]
    exact takes_of_queue h hcap (Nat.add_sub_cancel' hle) hlt
  · rw [heq]
    exact takes_of_screen h hcap hsend

/-- A reachable connection sends the same bytes and ends in the same state, whatever the sizes of
the buffers into which it is flushed until nothing is pending; and so does a reachable screen. -/
theorem flush_independent {c : Connection} {s : Screen} (hc : Reachable c) (hs : s.Reachable) :
    (∃ bytes d, ∀ capacities : Nat → Nat, (∀ n, 1 ≤ capacities n) →
      Drains flush capacities c bytes d) ∧
    (∃ bytes t, ∀ capacities : Nat → Nat, (∀ n, 1 ≤ capacities n) →
      Drains Screen.flush capacities s bytes t) := by
  obtain ⟨bytes, d, hleft⟩ := exists_left (Screen.reachable_wellFormed (screen_reachable hc))
  obtain ⟨bytes', t, hleft'⟩ := Screen.exists_left (Screen.reachable_wellFormed hs)
  exact ⟨⟨bytes, d, fun _ hcap => drains_of_takes (fun _ _ _ _ => flush_takes) hleft hcap⟩,
    ⟨bytes', t, fun _ hcap => drains_of_takes (fun _ _ _ _ => Screen.flush_takes) hleft' hcap⟩⟩

theorem flush_independent_cut : ∃ c₀ s₀, Opened { negotiateOnCreate := true } c₀ ∧
    Screen.create 2 1 .defaultStyle = .ok s₀ ∧
    (∃ bytes d,
      Drains flush (fun n => n + 1) (c₀.run [.flush 5, .submit .clearScreen, .flush 3]).2 bytes d ∧
      Drains flush (fun _ => 400) (c₀.run [.flush 5, .submit .clearScreen, .flush 3]).2 bytes d) ∧
    (∃ bytes t,
      Drains Screen.flush (fun n => n + 1)
        (s₀.run [.flush 9 0, .perform (.put 0 0 0x20AC), .perform (.repaintAlways true)]).2 bytes t ∧
      Drains Screen.flush (fun _ => 400)
        (s₀.run [.flush 9 0, .perform (.put 0 0 0x20AC), .perform (.repaintAlways true)]).2 bytes t) := by
  obtain ⟨c₀, hc⟩ : ∃ c₀, Opened { negotiateOnCreate := true } c₀ :=
    ⟨_, .create (rfl : Screen.create 2 1 .defaultStyle = .ok _) [] rfl⟩
  obtain ⟨s₀, hs⟩ : ∃ s₀, Screen.create 2 1 .defaultStyle = .ok s₀ := ⟨_, rfl⟩
  obtain ⟨⟨bytes, d, hd⟩, ⟨bytes', t, ht⟩⟩ := flush_independent (hc.reachable.run _)
    ((Screen.Reachable.create hs).run _)
  exact ⟨c₀, s₀, hc, hs, ⟨bytes, d, hd _ (fun n => Nat.le_add_left 1 n), hd _ (fun _ => by decide)⟩,
    ⟨bytes', t, ht _ (fun n => Nat.le_add_left 1 n), ht _ (fun _ => by decide)⟩⟩

end Connection
end RemoteScreen
