import RemoteScreen.Proofs.ControlSequence
import RemoteScreen.Proofs.Screen.Progress

/-! Buffers that hold the longest sequence of a cell. As long as every flush has one, no cell is split:
there is never a tail, and a flush that stops within the grid has sent a cell. -/

namespace RemoteScreen
namespace Screen

variable {all : Bool} {capacity start used : Nat} {s t u : Screen} {o : Output} {c : Call}

/-- Bytes of the longest sequence of a cell: a cursor move, a style and a code point. -/
def maxSequenceLength : Nat :=
  ControlSequence.maxCursorPositionLength + ControlSequence.maxStyleLength + 4

theorem length_encode_le (s : Screen) (i : Nat) (next : Cell) :
    (s.encode i next).length ≤ maxSequenceLength := by
  have hmove := ControlSequence.length_cursorPosition_le (i / s.width) (i % s.width)
  have hstyle := ControlSequence.length_setStyle_le s.peer.style next
  have hcode := CodePoint.length_encode_le next.codePoint
  simp only [encode, List.length_append, maxSequenceLength]
  refine Nat.add_le_add (Nat.add_le_add ?_ ?_) hcode
  · split
    · exact Nat.zero_le _
    · exact hmove
  · split
    · exact Nat.zero_le _
    · exact hstyle

/-! ### Calls -/

/-- A flush into a whole buffer has room for the longest sequence. Behind others' bytes no cell is split
in any buffer. -/
def Call.Roomy : Call → Prop
  | .flush capacity start => start = 0 → maxSequenceLength ≤ capacity
  | _ => True

instance : DecidablePred Call.Roomy
  | .flush _ _ => inferInstanceAs (Decidable (_ → _))
  | .perform _ => isTrue trivial
  | .finishCell _ => isTrue trivial

theorem Stop.tail_eq (hstop : Stop all capacity used u o t)
    (hroom : used = 0 → maxSequenceLength ≤ capacity) : t.tail = u.tail := by
  cases hstop with
  | complete => rfl
  | full => rfl
  | split hp hd hused hcap hfull =>
    have hlength : (u.emission hp).bytes.length ≤ maxSequenceLength := u.length_encode_le _ _
    have hle := hroom hused
    omega

theorem tail_sendAfter (hs : s.tail = .empty) (hroom : start = 0 → maxSequenceLength ≤ capacity) :
    (s.sendAfter capacity start).2.tail = .empty := by
  rcases s.sendAfter_cases capacity start with ⟨hlt, -⟩ | ⟨-, es, u, o, t, hsends, hstop, heq⟩
  · rw [hs] at hlt
    cases hlt
  · rw [heq, hstop.tail_eq fun hzero => hroom (by omega), hsends.tail_eq]
    rfl

theorem finishCell_of_tail_eq (hs : s.tail = .empty) (n : Nat) :
    s.finishCell n = (⟨[], false⟩, s) := by
  have hsize : s.tail.size = 0 := by rw [hs]; rfl
  rw [finishCell_eq, tail_send_of_le (hsize ▸ Nat.zero_le n), hsize, withoutTail_of_empty hs, hs]
  simp

theorem tail_call_of_roomy (hs : s.tail = .empty) (hroom : c.Roomy) : (s.call c).2.tail = .empty := by
  cases c with
  | perform a =>
    obtain ⟨t, ht, hedits⟩ := s.call_perform a
    rw [ht]
    exact (edits_tail_eq hedits).trans hs
  | flush capacity start =>
    simp only [call]
    split
    next o t h =>
      obtain ⟨-, heq⟩ := flushAfter_eq_ok.mp h
      have htail := tail_sendAfter hs hroom
      rwa [heq] at htail
    next => exact hs
  | finishCell n =>
    rw [call, finishCell_of_tail_eq hs]
    exact hs

theorem tail_run_of_roomy {calls : List Call} (hs : s.tail = .empty) (hroom : ∀ c ∈ calls, c.Roomy) :
    (s.run calls).2.tail = .empty := by
  induction calls generalizing s with
  | nil => exact hs
  | cons c calls ih =>
    obtain ⟨hc, hcalls⟩ := List.forall_mem_cons.mp hroom
    exact ih (tail_call_of_roomy hs hc) hcalls

/-! ### Flushes -/

/-- A flush completes the pass, or it has sent cells before the one at which it stops. -/
theorem completesPass_or_sends (hs : s.tail = .empty) (hroom : maxSequenceLength ≤ capacity) :
    s.CompletesPass capacity ∨ ∃ es t, es ≠ [] ∧ (∀ e ∈ es, s.IsSequence e) ∧
      t.position < t.target.size ∧ s.flush capacity = (⟨bytesOf es, true⟩, t) := by
  have hpending : s.tail.pending = [] := by rw [hs]; rfl
  have hsize : s.tail.size = 0 := (ByteQueue.pending_eq_nil_iff _).mp hpending
  rcases s.sendAfter_cases capacity 0 with ⟨hlt, -⟩ | ⟨-, es, u, o, t, hsends, hstop, heq⟩
  · omega
  have hfits := s.length_sendAfter_le (Nat.zero_le capacity)
  rw [heq, hpending, List.nil_append, List.length_append] at hfits
  cases hstop with
  | complete hend => exact Or.inl ⟨es, u, hsends, hend, by omega⟩
  | full hp hd hfull hused =>
    -- In a buffer in which nothing stands the next cell would have been split.
    refine Or.inr ⟨es, u, fun hnil => ?_, hsends.isSequence, hp, ?_⟩
    · have hzero : capacity = 0 := hused (by rw [hsize, hnil]; rfl)
      rw [hzero] at hroom
      exact absurd hroom (by decide)
    · rw [flush, heq, hpending, List.nil_append, List.append_nil]
  | split hp hd hused hcap hfull =>
    have hlength : (u.emission hp).bytes.length ≤ maxSequenceLength := u.length_encode_le _ _
    omega

/-- A cell's sequence is never longer than a cursor move, a style and a code point. So while every flush
has a buffer that holds as much, no cell is split: there is no tail in any state, there is none to
finish, and a flush that stops within the grid has sent whole cells. The bound is that of the digits:
every word is written as its digits, without zeros before them, into a buffer of twenty bytes that its
cursor never leaves, and a cursor move is read as the two numbers it was written with, which count from
one and stay at the largest word. -/
theorem run_splits_no_cell {width height : Nat} {style : Cell} {s₀ : Screen}
    (hnew : create width height style = .ok s₀) :
    (∀ (calls : List Call) (i : Nat) (next : Cell),
      ((s₀.run calls).2.encode i next).length ≤ maxSequenceLength) ∧
    (∀ (calls : List Call) (s : Screen), (∀ c ∈ calls, c.Roomy) → (s₀.run calls).2 = s →
      s.tail.pending = [] ∧ (∀ n, s.finishCell n = (⟨[], false⟩, s)) ∧
      ∀ n, maxSequenceLength ≤ n → ¬s.CompletesPass n → ∃ es t, es ≠ [] ∧
        (∀ e ∈ es, s.IsSequence e) ∧ t.position < t.target.size ∧
        s.flush n = (⟨bytesOf es, true⟩, t)) ∧
    (∀ w : UInt64, ∃ ds, Decimal.Writes ds w.toNat ∧ ds.length ≤ Decimal.room ∧
      Decimal.ofWord? w = some (ds.map fun d => UInt8.ofNat (0x30 + d))) ∧
    ∀ (row col : UInt64) (d : Display), d.mode = .ground → ∃ bytes,
      ControlSequence.cursorPosition? row col = some bytes ∧
      bytes = ControlSequence.cursorPosition row.toNat col.toNat ∧
      (d.read bytes.dropLast).mode = .parameters false
        [some (min (row.toNat + 1) ControlSequence.maxParameter)]
        (some (min (col.toNat + 1) ControlSequence.maxParameter)) := by
  refine ⟨fun calls i next => length_encode_le _ i next, fun calls s hroom hs => ?_, fun w => ?_,
    fun row col d hd => ?_⟩
  · have htail : s.tail = .empty := hs ▸ tail_run_of_roomy (tail_of_create hnew) hroom
    refine ⟨by rw [htail]; rfl, finishCell_of_tail_eq htail, fun n hn hstops => ?_⟩
    exact (completesPass_or_sends htail hn).resolve_left hstops
  · exact ⟨Decimal.digits w.toNat, Decimal.writes_digits _, Decimal.length_digits_word w,
      Decimal.ofWord?_eq w⟩
  · exact ⟨_, ControlSequence.cursorPosition?_eq row col, rfl,
      ControlSequence.mode_read_numbers hd row.toNat col.toNat⟩

/-- Two rows of forty columns: a flush stops in the second row, behind the bytes of others one goes into
a buffer that is full, and the cells are drawn again. -/
def drawnAgain : List Call :=
  [.flush 66 0, .flush 5 5, .finishCell 1, .perform (.put 3 1 0x1F600), .perform .repaintOnce]

theorem run_splits_no_cell_drawn_again : ∃ s₀ s, create 40 2 .defaultStyle = .ok s₀ ∧
    (∀ c ∈ drawnAgain, c.Roomy) ∧ (s₀.run drawnAgain).2 = s ∧ s.tail.pending = [] ∧
    ¬s.CompletesPass 66 ∧ ∃ es t, es ≠ [] ∧ (∀ e ∈ es, s.IsSequence e) ∧
      t.position < t.target.size ∧ s.flush 66 = (⟨bytesOf es, true⟩, t) := by
  obtain ⟨s₀, hnew, hstops⟩ : ∃ s₀, create 40 2 .defaultStyle = .ok s₀ ∧
      ((s₀.run drawnAgain).2.flush 66).2.position ≠ 0 := ⟨_, rfl, by decide +kernel⟩
  have hroom : ∀ c ∈ drawnAgain, c.Roomy := by decide
  have hcompletes : ¬(s₀.run drawnAgain).2.CompletesPass 66 := by
    rintro ⟨es, u, h⟩
    refine hstops ?_
    rw [flush, h.sendAfter]
    rfl
  obtain ⟨-, hrun, -⟩ := run_splits_no_cell hnew
  obtain ⟨htail, -, hflush⟩ := hrun drawnAgain _ hroom rfl
  exact ⟨s₀, _, hnew, hroom, rfl, htail, hcompletes, hflush 66 (by decide) hcompletes⟩

end Screen
end RemoteScreen
