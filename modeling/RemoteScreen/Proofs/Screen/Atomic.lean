import RemoteScreen.Proofs.Screen.Buffer
import RemoteScreen.Proofs.Screen.Sequences

/-! Cells go out whole. A sending call writes into its own part of the buffer only: first the tail of
a split cell, then whole sequences, and it cuts a cell only where nothing else stands in the buffer
(`Portion`). What is missing of a cut cell is what the screen sends next, whatever is called. -/

namespace RemoteScreen

/-! ### The buffer -/

/-- The buffer of a call that has sent some bytes, from `start` on. -/
structure Written (buffer : List UInt8) (start : Nat) (bytes : List UInt8) (f : Screen.Filled) :
    Prop where
  count : f.written = bytes.length
  room : f.written ≤ buffer.length - start
  length : f.buffer.length = buffer.length
  before : f.buffer.take start = buffer.take start
  sent : (f.buffer.drop start).take f.written = bytes
  behind : f.buffer.drop (start + f.written) = buffer.drop (start + f.written)

namespace Screen

variable {all : Bool} {capacity start used : Nat} {s t u : Screen} {es : List Emission}
  {last : Option Placement} {o : Output}

theorem written_filled {buffer : List UInt8} (hstart : start ≤ buffer.length)
    (hfits : start + o.bytes.length ≤ buffer.length) :
    Written buffer start o.bytes (filled buffer start (o, t)).1 := by
  have hbefore : (buffer.take start).length = start := List.length_take_of_le hstart
  have hsplit : overwrite buffer start o.bytes =
      buffer.take start ++ (o.bytes ++ buffer.drop (start + o.bytes.length)) :=
    List.append_assoc _ _ _
  refine ⟨rfl, Nat.le_sub_of_add_le' hfits, length_overwrite hfits, ?_, ?_, ?_⟩
  · show (overwrite buffer start o.bytes).take start = _
    rw [hsplit, List.take_left' hbefore]
  · show ((overwrite buffer start o.bytes).drop start).take o.bytes.length = _
    rw [hsplit, List.drop_left' hbefore, List.take_left]
  · show (overwrite buffer start o.bytes).drop (start + o.bytes.length) = _
    rw [← List.drop_drop, hsplit, List.drop_left' hbefore, List.drop_left]
    rfl

/-! ### Portions -/

/-- What a sending call takes from a screen: the old tail as far as it fits, then the `cells`, and
then a `part` of one more cell. -/
structure Portion (s : Screen) (last : Option Placement) (capacity start : Nat) (o : Output)
    (t : Screen) (cells : List Placement) (part : List UInt8) : Prop where
  pieces : o.bytes = s.tail.pending.take (capacity - start) ++
    encodeItems (sequences s.width last cells) ++ part
  order : cells <+: s.due
  /-- Nothing follows a tail that does not fit. -/
  waits : capacity - start < s.tail.size → o.pending = true ∧ cells = [] ∧ part = []
  keeps : part = [] → t.tail.pending = s.tail.pending.drop (capacity - start)
  /-- A cell is cut only if it is the first thing in the buffer, and fills it then. -/
  cut : part ≠ [] → start = 0 ∧ s.tail.pending = [] ∧ cells = [] ∧ 0 < capacity ∧
    part.length = capacity ∧ t.tail.pending ≠ [] ∧
    ∃ p, s.due.head? = some p ∧ part ++ t.tail.pending = encodeItems (sequence s.width last p)
  /-- The pass stays on a cell that does not fit whole and is not cut. -/
  stops : s.tail.size ≤ capacity - start → part = [] → ∀ p rest, s.due = cells ++ p :: rest →
    capacity < start + o.bytes.length +
        (encodeItems (sequence s.width (cells.getLast?.or last) p)).length ∧
      o.pending = true ∧ t.position = p.1 ∧ ∀ i, p.1 ≤ i → t.shown[i]? = s.shown[i]?

theorem eq_nil_of_encodeItems {width : Nat} {ps : List Placement}
    (h : encodeItems (Screen.sequences width last ps) = []) : ps = [] := by
  cases ps with
  | nil => rfl
  | cons p ps =>
    rw [Screen.sequences, encodeItems_append, List.append_eq_nil_iff, Screen.sequence,
      encodeItems_append, List.append_eq_nil_iff] at h
    exact absurd h.1.2 (by simpa [encodeItems, Item.encode] using CodePoint.encode_ne_nil _)

theorem portion_of_waits (h : capacity - start < s.tail.size) :
    Portion s last capacity start ⟨s.tail.pending.take (capacity - start), true⟩
      { s with tail := (s.tail.send (capacity - start)).2 } [] [] where
  pieces := by simp [Screen.sequences, encodeItems]
  order := List.nil_prefix
  waits _ := ⟨rfl, rfl, rfl⟩
  keeps _ := ByteQueue.pending_send _ _
  cut hpart := absurd rfl hpart
  stops hle := absurd hle (Nat.not_le_of_lt h)

theorem portion_of_whole {sent : List Placement} (hle : s.tail.size ≤ capacity - start)
    (hbytes : o.bytes = s.tail.pending ++ encodeItems (Screen.sequences s.width last sent))
    (horder : sent <+: s.due) (htail : t.tail.pending = [])
    (hstops : ∀ p rest, s.due = sent ++ p :: rest →
      capacity < start + o.bytes.length +
          (encodeItems (Screen.sequence s.width (sent.getLast?.or last) p)).length ∧
        o.pending = true ∧ t.position = p.1 ∧ ∀ i, p.1 ≤ i → t.shown[i]? = s.shown[i]?) :
    Portion s last capacity start o t sent [] where
  pieces := by
    rw [hbytes, List.append_nil, ByteQueue.take_pending hle]
  order := horder
  waits hlt := absurd hle (Nat.not_le_of_lt hlt)
  keeps _ := htail.trans (ByteQueue.drop_pending hle).symm
  cut hpart := absurd rfl hpart
  stops _ _ := hstops

theorem portion_of_cut {p : Placement} (hstart : start = 0) (htail : s.tail.pending = [])
    (hnext : s.due.head? = some p) (hcap : 0 < capacity)
    (hfull : capacity < (encodeItems (Screen.sequence s.width last p)).length)
    (hbytes : o.bytes = (encodeItems (Screen.sequence s.width last p)).take capacity)
    (hkept : t.tail.pending = (encodeItems (Screen.sequence s.width last p)).drop capacity) :
    Portion s last capacity start o t [] o.bytes := by
  have hlength : o.bytes.length = capacity := by
    rw [hbytes, List.length_take_of_le (Nat.le_of_lt hfull)]
  have hpart : o.bytes ≠ [] := fun hnil => by
    rw [hnil] at hlength
    exact Nat.ne_of_lt hcap hlength
  have hrest : t.tail.pending ≠ [] := by
    rw [hkept, ne_eq, List.drop_eq_nil_iff]
    exact Nat.not_le_of_lt hfull
  have hsize : s.tail.size = 0 := (ByteQueue.pending_eq_nil_iff _).mp htail
  refine ⟨?_, List.nil_prefix, fun hlt => ?_, fun hnil => absurd hnil hpart, fun _ => ?_,
    fun _ hnil => absurd hnil hpart⟩
  · rw [htail, List.take_nil]
    rfl
  · omega
  · refine ⟨hstart, htail, rfl, hcap, hlength, hrest, p, hnext, ?_⟩
    rw [hbytes, hkept, List.take_append_drop]

theorem exists_portion_of_stop {sent : List Placement} (hle : s.tail.size ≤ capacity - start)
    (hs : Sends s.forcing s.withoutTail es u)
    (hstop : Stop s.forcing capacity (start + s.tail.size + (bytesOf es).length) u o t)
    (hsize : s.shown.size = s.target.size) (hdue : s.due = sent ++ u.due)
    (hbytes : bytesOf es = encodeItems (Screen.sequences s.width last sent))
    (hk : u.Knows (sent.getLast?.or last)) :
    ∃ cells part, Portion s last capacity start
      ⟨s.tail.pending ++ bytesOf es ++ o.bytes, o.pending⟩ t cells part := by
  have htail : u.tail.pending = [] := by rw [hs.tail_eq]; rfl
  have hwidth : u.width = s.width := hs.width_eq
  have hforcing : u.forcing = s.forcing := hs.forcing_eq
  rw [← hforcing] at hstop
  cases hstop with
  | complete hend =>
    rw [due_of_le hend, List.append_nil] at hdue
    refine ⟨sent, [], portion_of_whole hle (by rw [hbytes, List.append_nil])
      (hdue ▸ List.prefix_rfl) htail fun p rest hmore => ?_⟩
    cases List.append_cancel_left ((List.append_nil sent).trans (hdue.symm.trans hmore))
  | full hp hd hfull hused =>
    rw [due_of_due hp hd] at hdue
    refine ⟨sent, [], portion_of_whole hle (by rw [hbytes, List.append_nil])
      (hdue ▸ List.prefix_append _ _) htail fun p rest hmore => ?_⟩
    obtain ⟨rfl, -⟩ := List.cons.inj (List.append_cancel_left (hdue.symm.trans hmore))
    rw [bytes_emission hk, hwidth] at hfull
    refine ⟨?_, rfl, rfl, fun i hi => ?_⟩
    · rw [List.append_nil, List.length_append, ByteQueue.length_pending, ← Nat.add_assoc]
      exact hfull
    · exact (hs.shown_eq hsize i).trans (if_neg fun h => Nat.not_lt_of_le hi h.2)
  | split hp hd hused hcap hfull =>
    rw [bytes_emission hk, hwidth] at hfull
    rw [due_of_due hp hd] at hdue
    -- The buffer is empty, so neither a tail nor a cell has gone out before.
    have hnil : bytesOf es = [] := List.length_eq_zero_iff.mp (by omega)
    obtain rfl : sent = [] := eq_nil_of_encodeItems (hbytes.symm.trans hnil)
    have hempty : s.tail.pending = [] := (ByteQueue.pending_eq_nil_iff _).mpr (by omega)
    rw [hnil, hempty]
    refine ⟨[], _, portion_of_cut (by omega) hempty (by rw [hdue]; rfl) hcap hfull ?_ ?_⟩
    · rw [bytes_emission hk, hwidth]
      rfl
    · rw [bytes_emission hk, hwidth]
      rfl

theorem exists_portion (hw : WellFormed s) (hk : s.Knows last) (capacity start : Nat) :
    ∃ cells part, Portion s last capacity start (s.sendAfter capacity start).1
      (s.sendAfter capacity start).2 cells part := by
  rcases s.sendAfter_cases capacity start with ⟨hlt, heq⟩ | ⟨hroom, es, u, o, t, hs, hstop, heq⟩
  · rw [heq]
    exact ⟨[], [], portion_of_waits hlt⟩
  · obtain ⟨sent, hdue, -, hbytes, hknows⟩ := hs.sent hk
    rw [heq]
    exact exists_portion_of_stop hroom hs hstop hw.size_eq hdue hbytes hknows

/-! ### The missing tail -/

theorem tail_call (s : Screen) (c : Call) : s.tail.pending <+: (s.call c).1 ∨
    (s.call c).1 ++ (s.call c).2.tail.pending = s.tail.pending := by
  rcases s.call_cases c with ⟨t, heq, he⟩ | ⟨capacity, start, -, heq⟩ | ⟨capacity, heq⟩
  · rw [heq, edits_tail_eq he]
    exact Or.inr rfl
  · rw [heq]
    rcases s.sendAfter_cases capacity start with ⟨-, hsend⟩ | ⟨-, es, u, o, t, -, -, hsend⟩
    · rw [hsend, ByteQueue.pending_send]
      exact Or.inr (List.take_append_drop _ _)
    · rw [hsend]
      exact Or.inl ((List.prefix_append _ _).trans (List.prefix_append _ _))
  · rw [heq, finishCell_eq, ByteQueue.pending_send]
    exact Or.inr (List.take_append_drop _ _)

/-- Whatever is called, the next bytes are those of the tail: all of them go out first, or nothing
but some of them, and the others are kept. -/
theorem tail_run (s : Screen) (cs : List Call) : s.tail.pending <+: (s.run cs).1 ∨
    (s.run cs).1 ++ (s.run cs).2.tail.pending = s.tail.pending := by
  induction cs generalizing s with
  | nil => exact Or.inr rfl
  | cons c cs ih =>
    rw [run_cons]
    rcases s.tail_call c with hfirst | hfirst
    · exact Or.inl (hfirst.trans (List.prefix_append _ _))
    rw [← hfirst]
    rcases ih (s.call c).2 with hrest | hrest
    · exact Or.inl ((List.prefix_append_right_inj _).mpr hrest)
    · exact Or.inr (by rw [List.append_assoc, hrest])

/-- A sending call writes no more than fits behind the first `start` bytes of its buffer, and leaves
all other bytes of it as they are. It writes the tail of a split cell as far as it fits and, once that
is out, whole sequences; it cuts a cell only if nothing else stands in the buffer, and fills the buffer
with the first part of it. The rest of that cell is what the screen sends next, whatever is called. A
call that stops because a whole cell does not fit leaves the pass on it, with that cell and the ones
behind it shown as before. -/
theorem flushInto_sends_whole_cells {width height : Nat} {style : Cell} {s₀ : Screen}
    (hnew : create width height style = .ok s₀) (calls : List Call) (hs : (s₀.run calls).2 = s)
    (hlast : s₀.lastSent none calls = last) {buffer : List UInt8} (hstart : start ≤ buffer.length) :
    ∃ f o t, s.flushInto? buffer start = some (f, t) ∧ s.flushAfter buffer.length start = .ok (o, t) ∧
      Written buffer start o.bytes f ∧
      (∃ cells part, Portion s last buffer.length start o t cells part) ∧
      ∀ next : List Call, t.tail.pending <+: (t.run next).1 ∨
        (t.run next).1 ++ (t.run next).2.tail.pending = t.tail.pending := by
  obtain ⟨hw, hk⟩ := knows_of_run hnew hs hlast
  exact ⟨_, _, _, flushInto?_eq hw hstart, flushAfter_eq_ok.mpr ⟨hstart, rfl⟩,
    written_filled hstart (s.length_sendAfter_le hstart), exists_portion hw hk _ _,
    fun next => tail_run _ next⟩

/-- A cell is cut by a buffer of one byte, and again by the next two. -/
theorem flushInto_sends_whole_cells_cut : ∃ s₀ s f t, ∃ o : Output,
    create 2 1 .defaultStyle = .ok s₀ ∧ (s₀.run [.flush 1 0, .finishCell 1]).2 = s ∧
    s.flushInto? [1, 2] 1 = some (f, t) ∧ Written [1, 2] 1 o.bytes f ∧
    ∀ next : List Call, t.tail.pending <+: (t.run next).1 ∨
      (t.run next).1 ++ (t.run next).2.tail.pending = t.tail.pending := by
  obtain ⟨s₀, hnew⟩ : ∃ s₀, create 2 1 .defaultStyle = .ok s₀ := ⟨_, rfl⟩
  have hstart : 1 ≤ ([1, 2] : List UInt8).length := by decide
  obtain ⟨f, o, t, hinto, -, hwritten, -, hnext⟩ := flushInto_sends_whole_cells hnew
    [.flush 1 0, .finishCell 1] rfl rfl hstart
  exact ⟨s₀, _, f, t, o, hnew, rfl, hinto, hwritten, hnext⟩

end Screen
end RemoteScreen
