import RemoteScreen.Proofs.Connection.Drain
import RemoteScreen.Proofs.Screen.Progress

/-! Flushing a connection comes to an end, as flushing its screen does. A flush that stops within the
tail of a split cell or within the queue has filled its buffer, and one that goes on to the screen
completes a pass where the screen does. -/

namespace RemoteScreen
namespace Connection

variable {c d : Connection} {u : Screen} {capacity : Nat} {es : List Screen.Emission}

/-! ### One flush -/

/-- A flush completes the pass of the screen, behind the tail of a split cell and the queue; it sends
the cells `es`, and the pass leads to `u`. -/
def Completes (c : Connection) (capacity : Nat) (es : List Screen.Emission) (u : Screen) : Prop :=
  c.ready.Completes capacity c.outbound.size es u

theorem completes_iff (c : Connection) (capacity : Nat) (es : List Screen.Emission) (u : Screen) :
    c.Completes capacity es u ↔
      c.ready.withoutTail.Completes capacity (c.screen.tail.size + c.outbound.size) es u := by
  have htail : c.ready.tail = c.screen.tail := by
    unfold ready
    split <;> rfl
  constructor
  · rintro ⟨hsends, hends, hfits⟩
    rw [htail] at hfits
    exact ⟨hsends, hends, by simp only [Screen.withoutTail, ByteQueue.size_empty]; omega⟩
  · rintro ⟨hsends, hends, hfits⟩
    simp only [Screen.withoutTail, ByteQueue.size_empty] at hfits
    exact ⟨hsends, hends, by rw [htail]; omega⟩

theorem Completes.flush (h : c.Completes capacity es u) :
    c.flush capacity =
      (⟨c.screen.tail.pending ++ c.outbound.pending ++ Screen.bytesOf es, !u.isClean⟩,
        { c with screen := u.endPass, outbound := .empty }) := by
  have hscreen := (c.completes_iff capacity es u).mp h
  have hfits := hscreen.fits
  rcases c.flush_cases capacity with ⟨hlt, -⟩ | ⟨-, hlt, -⟩ | ⟨-, o, t, hsend, heq⟩
  · omega
  · omega
  · rw [hscreen.sendAfter] at hsend
    cases hsend
    rw [heq]
    rfl

theorem swept_ready (h : c.screen.Swept) : c.ready.Swept := by
  unfold ready
  split <;> exact h

theorem stale_ready (h : c.ready.Stale) : c.screen.Stale := by
  unfold ready at h
  split at h <;> exact h

theorem swept_flush (hw : c.screen.WellFormed) (hs : c.screen.Swept) (capacity : Nat) :
    (c.flush capacity).2.screen.Swept := by
  rcases c.flush_cases capacity with ⟨-, heq⟩ | ⟨-, -, heq⟩ | ⟨-, o, t, hsend, heq⟩
  · rw [heq]
    exact hs
  · rw [heq]
    exact hs
  · have hafter := Screen.Swept.sendAfter (s := c.ready.withoutTail) (swept_ready hs)
      ((wellFormed_ready hw).setTail .empty) capacity (c.screen.tail.size + c.outbound.size)
    rw [hsend] at hafter
    rw [heq]
    exact hafter

theorem wellFormed_flush (hw : c.screen.WellFormed) (capacity : Nat) :
    (c.flush capacity).2.screen.WellFormed := by
  rcases c.flush_cases capacity with ⟨-, heq⟩ | ⟨-, -, heq⟩ | ⟨-, o, t, hsend, heq⟩
  · rw [heq]
    exact hw.setTail (hw.tail_valid.send _)
  · rw [heq]
    exact hw.setTail .empty
  · have hready : c.ready.withoutTail.WellFormed := (wellFormed_ready hw).setTail .empty
    have hafter := hready.sendAfter capacity (c.screen.tail.size + c.outbound.size)
    rw [hsend] at hafter
    rw [heq]
    exact hafter

/-- A flush that leaves its buffer empty, with something pending, has completed a pass with nothing
to send. -/
theorem completes_of_silent (hw : c.screen.WellFormed) (hcap : 0 < capacity)
    (hpend : (c.flush capacity).1.pending = true) (hnil : (c.flush capacity).1.bytes = []) :
    ∃ u, c.Completes capacity [] u ∧ c.screen.Stale := by
  rcases c.flush_cases capacity with ⟨hlt, heq⟩ | ⟨hle, hlt, heq⟩ | ⟨-, o, t, hsend, heq⟩
  · rw [heq] at hnil
    have hlength := congrArg List.length hnil
    rw [List.length_take, ByteQueue.length_pending, List.length_nil] at hlength
    omega
  · rw [heq] at hnil
    have hlength := congrArg List.length hnil
    rw [List.length_append, List.length_take, ByteQueue.length_pending, ByteQueue.length_pending,
      List.length_nil] at hlength
    omega
  · rw [heq] at hpend hnil
    have hlength := congrArg List.length hnil
    rw [List.length_append, List.length_append, ByteQueue.length_pending, ByteQueue.length_pending,
      List.length_nil] at hlength
    obtain ⟨u, hscreen, hstale⟩ := Screen.completes_of_silent ((wellFormed_ready hw).setTail .empty)
      hcap hsend hpend hlength
    exact ⟨u, (c.completes_iff capacity [] u).mpr hscreen, stale_ready hstale⟩

theorem flush_of_empty (htail : c.screen.tail = .empty) (hqueue : c.outbound = .empty)
    (capacity : Nat) : (c.flush capacity).1 = (c.screen.flush capacity).1 := by
  have hready : c.ready = c.screen := ready_of_drained (by rw [hqueue]; rfl)
  rcases c.flush_cases capacity with ⟨hlt, -⟩ | ⟨-, hlt, -⟩ | ⟨-, o, t, hsend, heq⟩
  · rw [htail] at hlt
    cases hlt
  · rw [hqueue] at hlt
    cases hlt
  · rw [hready, htail, hqueue, Screen.withoutTail_of_empty htail] at hsend
    have hflush : c.screen.flush capacity = (o, t) := hsend
    rw [heq, hflush, htail, hqueue]
    rfl

/-! ### All flushes -/

/-- A flush into a buffer of size `n` completes a pass of the screen. -/
def CompletesPass (c : Connection) (n : Nat) : Prop :=
  ∃ es u, c.Completes n es u

/-- A flush into a buffer of size `n` completes a pass with nothing to send, although a cell behind
the start of the pass differs. -/
def PassesOver (c : Connection) (n : Nat) : Prop :=
  (∃ u, c.Completes n [] u) ∧ c.screen.Stale

theorem advances :
    Advances flush CompletesPass PassesOver (·.screen.WellFormed) (·.screen.Swept) where
  good_flush c n hw := wellFormed_flush hw n
  drains c capacities hw hcap := by
    obtain ⟨bytes, d, hleft⟩ := exists_left hw
    exact ⟨bytes, d, drains_of_takes (fun _ _ _ _ => flush_takes) hleft hcap⟩
  fresh_of_completes c n h := by
    obtain ⟨es, u, h⟩ := h
    rw [h.flush]
    exact Screen.swept_of_start rfl
  fresh_flush c n hw hs := swept_flush hw hs n
  clean c n hw hs h := by
    obtain ⟨es, u, h⟩ := h
    have hclean : u.isClean = true := Screen.Completes.isClean h (wellFormed_ready hw) (swept_ready hs)
    rw [h.flush, hclean]
    rfl
  sends c n hw hn hpend := by
    by_cases hnil : (c.flush n).1.bytes = []
    · obtain ⟨u, h, hstale⟩ := completes_of_silent hw hn hpend hnil
      rw [h.flush] at hpend ⊢
      have hclean : u.isClean = false := by simpa using hpend
      have htail : u.endPass.tail = .empty := h.sends.tail_eq
      refine Or.inr ⟨⟨⟨u, h⟩, hstale⟩, fun m hm => ?_⟩
      rw [flush_of_empty htail rfl]
      exact Screen.Completes.flush_ne_nil h (wellFormed_ready hw) hclean hm
    · exact Or.inl hnil

/-- Flushing a reachable connection comes to an end, whatever it repaints and whatever the sizes of
the buffers, and so does flushing a reachable screen. On the way at most one flush completes a pass;
and each flush that leaves something pending has sent a byte, unless it has completed a pass with
nothing to send and a cell behind its start differs. Then the next flush sends a byte. -/
theorem flush_progresses {c : Connection} {s : Screen} (hc : Reachable c) (hs : s.Reachable)
    {capacities : Nat → Nat} (hcap : ∀ n, 1 ≤ capacities n) :
    Progresses flush CompletesPass PassesOver capacities c ∧
      Progresses Screen.flush Screen.CompletesPass Screen.PassesOver capacities s :=
  ⟨advances.progresses (Screen.reachable_wellFormed (screen_reachable hc)) hcap,
    Screen.advances.progresses (Screen.reachable_wellFormed hs) hcap⟩

/-- The pass stands behind its first cell, nothing differs before it, and the first cell differs. -/
def overtakenCalls : List Screen.Call :=
  [.flush 100 0, .perform (.write 0 0 "ab"), .flush 7 0, .perform (.write 0 0 "c ")]

theorem flush_progresses_overtaken : ∃ c₀ s₀, Opened { negotiateOnCreate := true } c₀ ∧
    Screen.create 3 1 .defaultStyle = .ok s₀ ∧
    (answer Screen.flush (fun n => n + 1) (s₀.run overtakenCalls).2 0) = ⟨[], true⟩ ∧
    Progresses flush CompletesPass PassesOver (fun n => n + 1)
      (c₀.run [.screen (.perform (.repaintAlways true)), .flush 5, .submit .clearScreen]).2 ∧
    Progresses Screen.flush Screen.CompletesPass Screen.PassesOver (fun n => n + 1)
      (s₀.run overtakenCalls).2 := by
  obtain ⟨c₀, hc⟩ : ∃ c₀, Opened { negotiateOnCreate := true } c₀ :=
    ⟨_, .create (rfl : Screen.create 2 1 .defaultStyle = .ok _) [] rfl⟩
  obtain ⟨s₀, hs, hsilent⟩ : ∃ s₀, Screen.create 3 1 .defaultStyle = .ok s₀ ∧
      (answer Screen.flush (fun n => n + 1) (s₀.run overtakenCalls).2 0) = ⟨[], true⟩ :=
    ⟨_, rfl, by decide +kernel⟩
  obtain ⟨hconnection, hscreen⟩ := flush_progresses (hc.reachable.run _)
    ((Screen.Reachable.create hs).run _) (fun n => Nat.le_add_left 1 n)
  exact ⟨c₀, s₀, hc, hs, hsilent, hconnection, hscreen⟩

end Connection
end RemoteScreen
