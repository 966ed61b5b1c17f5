import RemoteScreen.Proofs.Screen.Calls

/-! What one sending call does. It sends the tail of a split cell and then runs the pass cell by cell
(`Sends`) until the pass is complete, the next cell does not fit, or it splits that cell (`Stop`).
`sendAfter_cases` says this of the whole call; what a call keeps is then shown of one cell. -/

namespace RemoteScreen
namespace Screen

variable {all : Bool} {capacity used : Nat} {s t u : Screen}

/-- Whether the running pass sends cells that do not differ as well. -/
def forcing (s : Screen) : Bool :=
  s.repaintAlways || s.repaintOnce

/-- Whether the pass sends the cell at its position. -/
def Due (all : Bool) (s : Screen) : Prop :=
  all = true ∨ s.shown[s.position]? ≠ s.target[s.position]?

/-- A cell that was sent, with its whole sequence of bytes. -/
structure Emission where
  index : Nat
  bytes : List UInt8
  deriving DecidableEq

/-- The cell at the position of the pass, as it is sent. -/
def emission (s : Screen) (h : s.position < s.target.size) : Emission :=
  ⟨s.position, s.encode s.position s.target[s.position]⟩

/-- The screen after the cell at the position of the pass has been sent. -/
def advance (s : Screen) (h : s.position < s.target.size) : Screen :=
  s.commit s.position s.target[s.position]

/-- The screen after a pass. -/
def endPass (s : Screen) : Screen :=
  { s with position := 0, repaintOnce := false }

/-- The screen after the tail of a split cell has been sent. -/
def withoutTail (s : Screen) : Screen :=
  { s with tail := .empty }

/-- The bytes of some cells one after another. -/
def bytesOf (es : List Emission) : List UInt8 :=
  es.flatMap Emission.bytes

@[simp] theorem bytesOf_nil : bytesOf [] = [] := rfl

@[simp] theorem bytesOf_cons (e : Emission) (es : List Emission) :
    bytesOf (e :: es) = e.bytes ++ bytesOf es := List.flatMap_cons

theorem bytesOf_append (es fs : List Emission) : bytesOf (es ++ fs) = bytesOf es ++ bytesOf fs :=
  List.flatMap_append

/-- A part of a pass leads from one screen to another and sends some cells. -/
inductive Sends (all : Bool) : Screen → List Emission → Screen → Prop where
  | done (s : Screen) : Sends all s [] s
  | skip {s t : Screen} {es : List Emission} (h : s.position < s.target.size) (hd : ¬Due all s)
      (hs : Sends all { s with position := s.position + 1 } es t) : Sends all s es t
  | send {s t : Screen} {es : List Emission} (h : s.position < s.target.size) (hd : Due all s)
      (hs : Sends all (s.advance h) es t) : Sends all s (s.emission h :: es) t

/-- Where a call leaves the pass: the last bytes it sends, whether there is more to send, and the
screen. `used` bytes of the buffer are taken. -/
inductive Stop (all : Bool) (capacity used : Nat) (u : Screen) : Output → Screen → Prop where
  | complete (h : u.target.size ≤ u.position) : Stop all capacity used u ⟨[], !u.isClean⟩ u.endPass
  /-- The next cell does not fit behind what stands in the buffer. -/
  | full (h : u.position < u.target.size) (hd : Due all u)
      (hfull : capacity < used + (u.emission h).bytes.length) (hused : used = 0 → capacity = 0) :
      Stop all capacity used u ⟨[], true⟩ u
  /-- The next cell does not even fit an empty buffer. -/
  | split (h : u.position < u.target.size) (hd : Due all u) (hused : used = 0) (hcap : 0 < capacity)
      (hfull : capacity < (u.emission h).bytes.length) :
      Stop all capacity used u ⟨(u.emission h).bytes.take capacity, true⟩
        { u.advance h with tail := .ofList ((u.emission h).bytes.drop capacity) }

theorem due_iff (h : s.position < s.target.size) :
    Due all s ↔ ¬(!all && decide (s.shown[s.position]? = some s.target[s.position])) = true := by
  rw [Due, Array.getElem?_eq_getElem h]
  cases all <;> simp

theorem pass_spec (all : Bool) (capacity start : Nat) (s : Screen) (out : Array UInt8) :
    ∃ es u o t, Sends all s es u ∧
      Stop all capacity (start + out.size + (bytesOf es).length) u o t ∧
      pass all capacity start s out = (⟨out.toList ++ bytesOf es ++ o.bytes, o.pending⟩, t) := by
  fun_induction pass all capacity start s out with
  | case1 s out h i next hskip ih =>
    obtain ⟨es, u, o, t, hs, ho, hp⟩ := ih
    exact ⟨es, u, o, t, .skip h (fun hd => (due_iff h).mp hd hskip) hs, ho, hp⟩
  | case2 s out h i next hdue bytes used hfits ih =>
    obtain ⟨es, u, o, t, hs, ho, hp⟩ := ih
    refine ⟨s.emission h :: es, u, o, t, .send h ((due_iff h).mpr hdue) hs, ?_, ?_⟩
    · have hlen : start + (out ++ bytes).size + (bytesOf es).length =
          start + out.size + (bytesOf (s.emission h :: es)).length := by
        rw [← Array.length_toList, Array.toList_appendList, List.length_append, Array.length_toList,
          bytesOf_cons, List.length_append, ← Nat.add_assoc, ← Nat.add_assoc]
        rfl
      rw [← hlen]
      exact ho
    · rw [hp, Array.toList_appendList, bytesOf_cons, ← List.append_assoc]
      rfl
  | case3 s out h i next hdue bytes used hfits hsplit split =>
    simp only [Bool.and_eq_true, decide_eq_true_eq] at hsplit
    obtain ⟨hused, hcap⟩ := hsplit
    have hused' : start + out.size = 0 := hused
    have hout : out.toList = [] := List.length_eq_zero_iff.mp (by rw [Array.length_toList]; omega)
    have hfull : capacity < (s.emission h).bytes.length := by
      have hb : (s.emission h).bytes.length = bytes.length := rfl
      omega
    refine ⟨[], s, _, _, .done s, .split h ((due_iff h).mpr hdue) hused' (Nat.pos_of_ne_zero hcap) hfull, ?_⟩
    rw [hout]
    rfl
  | case4 s out h i next hdue bytes used hfits hfull =>
    simp only [Bool.and_eq_true, decide_eq_true_eq, not_and, Decidable.not_not] at hfull
    have hb : (s.emission h).bytes.length = bytes.length := rfl
    have hused' : used = start + out.size := rfl
    refine ⟨[], s, _, _, .done s, .full h ((due_iff h).mpr hdue) ?_ ?_, ?_⟩
    · simp only [bytesOf_nil, List.length_nil]
      omega
    · simp only [bytesOf_nil, List.length_nil]
      intro h0
      have hz : used = 0 := by omega
      exact hfull hz
    · simp
  | case5 s out h s' =>
    refine ⟨[], s, _, _, .done s, .complete (Nat.le_of_not_lt h), ?_⟩
    rw [bytesOf_nil, List.append_nil, List.append_nil]
    rfl

/-! ### One call -/

theorem finishCell_eq (s : Screen) (capacity : Nat) :
    s.finishCell capacity = (⟨s.tail.pending.take capacity, decide (capacity < s.tail.size)⟩,
      { s with tail := (s.tail.send capacity).2 }) := by
  simp only [finishCell, ByteQueue.send_fst, ByteQueue.isDrained, ByteQueue.size_send, Prod.mk.injEq,
    Output.mk.injEq, true_and, and_true]
  rw [Bool.eq_iff_iff]
  simp only [Bool.not_eq_true', decide_eq_false_iff_not, decide_eq_true_eq]
  omega

theorem tail_send_of_le {capacity : Nat} (h : s.tail.size ≤ capacity) :
    { s with tail := (s.tail.send capacity).2 } = s.withoutTail := by
  rw [withoutTail, ByteQueue.send, if_pos h]

theorem Reachable.withoutTail (h : Reachable s) : Reachable s.withoutTail := by
  rw [← tail_send_of_le (Nat.le_refl s.tail.size)]
  exact h.call (.finishCell s.tail.size)

theorem Reachable.sendAfter (h : Reachable s) {start : Nat} (hle : start ≤ capacity) :
    Reachable (s.sendAfter capacity start).2 := by
  have hcall := h.call (.flush capacity start)
  rwa [Screen.call, flushAfter_eq_ok.mpr ⟨hle, rfl⟩] at hcall

/-- A sending call stops within the tail of a split cell, or it sends the tail and then cells. -/
theorem sendAfter_cases (s : Screen) (capacity start : Nat) :
    (capacity - start < s.tail.size ∧
      s.sendAfter capacity start = (⟨s.tail.pending.take (capacity - start), true⟩,
        { s with tail := (s.tail.send (capacity - start)).2 })) ∨
    (s.tail.size ≤ capacity - start ∧ ∃ es u o t, Sends s.forcing s.withoutTail es u ∧
      Stop s.forcing capacity (start + s.tail.size + (bytesOf es).length) u o t ∧
      s.sendAfter capacity start = (⟨s.tail.pending ++ bytesOf es ++ o.bytes, o.pending⟩, t)) := by
  unfold sendAfter
  rw [finishCell_eq]
  by_cases h : capacity - start < s.tail.size
  · left
    rw [decide_eq_true h]
    exact ⟨h, rfl⟩
  · right
    have hle : s.tail.size ≤ capacity - start := Nat.le_of_not_lt h
    rw [decide_eq_false h, tail_send_of_le hle, ByteQueue.take_pending hle]
    obtain ⟨es, u, o, t, hs, ho, hp⟩ :=
      pass_spec s.forcing capacity start s.withoutTail s.tail.pending.toArray
    rw [List.size_toArray, ByteQueue.length_pending] at ho
    exact ⟨hle, es, u, o, t, hs, ho, hp⟩

/-! ### What a part of a pass keeps -/

/-- A pass changes what has been shown, what is known of the peer, and its position. -/
theorem Sends.frame {es : List Emission} (h : Sends all s es u) :
    ∃ shown peer position, u = { s with shown, peer, position } ∧ shown.size = s.shown.size ∧
      s.position ≤ position := by
  induction h with
  | done s => exact ⟨s.shown, s.peer, s.position, rfl, rfl, Nat.le_refl _⟩
  | skip h hd hs ih =>
    obtain ⟨shown, peer, position, rfl, hsize, hpos⟩ := ih
    exact ⟨shown, peer, position, rfl, hsize, Nat.le_of_succ_le hpos⟩
  | send h hd hs ih =>
    obtain ⟨shown, peer, position, rfl, hsize, hpos⟩ := ih
    exact ⟨shown, peer, position, rfl, hsize.trans Array.size_setIfInBounds, Nat.le_of_succ_le hpos⟩

theorem Sends.forcing_eq {es : List Emission} (h : Sends all s es u) : u.forcing = s.forcing := by
  obtain ⟨shown, peer, position, rfl, -, -⟩ := h.frame
  rfl

theorem Sends.tail_eq {es : List Emission} (h : Sends all s es u) : u.tail = s.tail := by
  obtain ⟨shown, peer, position, rfl, -, -⟩ := h.frame
  rfl

theorem Sends.width_eq {es : List Emission} (h : Sends all s es u) : u.width = s.width := by
  obtain ⟨shown, peer, position, rfl, -, -⟩ := h.frame
  rfl

theorem Sends.target_eq {es : List Emission} (h : Sends all s es u) : u.target = s.target := by
  obtain ⟨shown, peer, position, rfl, -, -⟩ := h.frame
  rfl

theorem Sends.position_le {es : List Emission} (h : Sends all s es u) :
    s.position ≤ u.position := by
  obtain ⟨shown, peer, position, rfl, -, hle⟩ := h.frame
  exact hle

/-- A sending call changes no more than what has been shown, what is known of the peer, the position, a
repaint that is due, and the tail. -/
theorem sendAfter_frame (s : Screen) (capacity start : Nat) :
    ∃ shown peer position once tail, (s.sendAfter capacity start).2 =
      { s with shown, peer, position, repaintOnce := once, tail } := by
  rcases s.sendAfter_cases capacity start with ⟨-, heq⟩ | ⟨-, es, u, o, t, hs, hstop, heq⟩
  · rw [heq]
    exact ⟨s.shown, s.peer, s.position, s.repaintOnce, _, rfl⟩
  · obtain ⟨shown, peer, position, rfl, -, -⟩ := hs.frame
    rw [heq]
    cases hstop <;> exact ⟨_, _, _, _, _, rfl⟩

/-! ### Whole cells -/

/-- The bytes are the whole sequence of a cell that should show, for some peer. -/
def IsCell (s : Screen) (bytes : List UInt8) : Prop :=
  ∃ (i : Nat) (h : i < s.target.size) (peer : Peer), bytes = { s with peer }.encode i s.target[i]

/-- The bytes are the whole sequence of the cell at their index, for some peer. -/
def IsSequence (s : Screen) (e : Emission) : Prop :=
  ∃ (h : e.index < s.target.size) (peer : Peer),
    e.bytes = { s with peer }.encode e.index s.target[e.index]

theorem IsSequence.isCell {e : Emission} (h : s.IsSequence e) : s.IsCell e.bytes := by
  obtain ⟨hindex, peer, hbytes⟩ := h
  exact ⟨e.index, hindex, peer, hbytes⟩

theorem isSequence_emission (h : s.position < s.target.size) : s.IsSequence (s.emission h) :=
  ⟨h, s.peer, rfl⟩

theorem Sends.isSequence {es : List Emission} (hs : Sends all s es u) :
    ∀ e ∈ es, s.IsSequence e := by
  induction hs with
  | done => exact fun _ he => nomatch he
  | skip _ _ _ ih => exact ih
  | send h _ _ ih =>
    intro e he
    rcases List.mem_cons.mp he with rfl | he
    · exact isSequence_emission h
    · exact ih e he

theorem Sends.isSequence_next {es : List Emission} (hs : Sends all s es u)
    (h : u.position < u.target.size) : s.IsSequence (u.emission h) := by
  obtain ⟨shown, peer, position, rfl, -, -⟩ := hs.frame
  exact ⟨h, peer, rfl⟩

/-- Where a call stops it sends no more, or a part of the next cell, and then it keeps the rest. -/
theorem Stop.taken {o : Output} (hstop : Stop all capacity used u o t) (htail : u.tail.pending = []) :
    o.bytes ++ t.tail.pending = [] ∨ ∃ h : u.position < u.target.size, Due all u ∧
      o.bytes ++ t.tail.pending = (u.emission h).bytes := by
  cases hstop with
  | complete => exact Or.inl htail
  | full => exact Or.inl htail
  | split hp hd => exact Or.inr ⟨hp, hd, List.take_append_drop _ _⟩

/-- What has been sent between two screens, with the tail of the second, is the tail of the first and
then whole sequences of its cells. -/
def Gives (s : Screen) (bytes : List UInt8) (t : Screen) : Prop :=
  ∃ es : List Emission, (∀ e ∈ es, s.IsSequence e) ∧
    bytes ++ t.tail.pending = s.tail.pending ++ bytesOf es

theorem Gives.of_tail {bytes : List UInt8} (h : bytes ++ t.tail.pending = s.tail.pending) :
    s.Gives bytes t :=
  ⟨[], fun _ he => (nomatch he), by rw [h, bytesOf_nil, List.append_nil]⟩

theorem sendAfter_gives (s : Screen) (capacity start : Nat) :
    s.Gives (s.sendAfter capacity start).1.bytes (s.sendAfter capacity start).2 := by
  rcases s.sendAfter_cases capacity start with ⟨-, heq⟩ | ⟨-, es, u, o, t, hs, hstop, heq⟩
  · rw [heq]
    refine .of_tail ?_
    rw [ByteQueue.pending_send, List.take_append_drop]
  have htail : u.tail.pending = [] := by rw [hs.tail_eq]; rfl
  rw [heq]
  rcases hstop.taken htail with hnil | ⟨hp, -, hnext⟩
  · refine ⟨es, hs.isSequence, ?_⟩
    rw [List.append_assoc, hnil, List.append_nil]
  · refine ⟨es ++ [u.emission hp], fun e he => ?_, ?_⟩
    · rcases List.mem_append.mp he with he | he
      · exact hs.isSequence e he
      · rw [List.mem_singleton.mp he]
        exact hs.isSequence_next hp
    · rw [List.append_assoc, hnext, bytesOf_append, bytesOf_cons, bytesOf_nil, List.append_nil,
        List.append_assoc]

theorem call_gives (s : Screen) (c : Call) : s.Gives (s.call c).1 (s.call c).2 := by
  rcases s.call_cases c with ⟨t, heq, he⟩ | ⟨capacity, start, -, heq⟩ | ⟨capacity, heq⟩
  · rw [heq]
    exact .of_tail (congrArg ByteQueue.pending (edits_tail_eq he))
  · rw [heq]
    exact s.sendAfter_gives capacity start
  · rw [heq, finishCell_eq]
    refine .of_tail ?_
    rw [ByteQueue.pending_send, List.take_append_drop]

/-- A sending call that begins between two cells sends whole cells, but for the end of the last one,
which it keeps. -/
theorem sendAfter_cells (htail : s.tail = .empty) {start : Nat} {o : Output}
    (h : s.sendAfter capacity start = (o, t)) :
    ∃ bs : List (List UInt8), bs.flatten = o.bytes ++ t.tail.pending ∧ (∀ b ∈ bs, s.IsCell b) ∧
      (t.tail.pending = [] ∨ ∃ pre part, part ≠ [] ∧ bs = pre ++ [part ++ t.tail.pending]) := by
  rcases s.sendAfter_cases capacity start with ⟨hlt, -⟩ | ⟨-, es, u, o', t', hs, hstop, heq⟩
  · rw [htail] at hlt
    cases hlt
  rw [heq, htail] at h
  cases h
  have hcells : ∀ b ∈ es.map Emission.bytes, s.IsCell b := by
    intro b hb
    obtain ⟨e, he, rfl⟩ := List.mem_map.mp hb
    exact (hs.isSequence e he).isCell
  have hflat : (es.map Emission.bytes).flatten = bytesOf es := List.flatMap_def.symm
  obtain ⟨shown, peer, position, rfl, -, -⟩ := hs.frame
  rw [ByteQueue.pending_empty, List.nil_append]
  cases hstop with
  | complete =>
    exact ⟨es.map Emission.bytes, hflat.trans (by simp [endPass, withoutTail]), hcells, Or.inl rfl⟩
  | full => exact ⟨es.map Emission.bytes, hflat.trans (by simp [withoutTail]), hcells, Or.inl rfl⟩
  | split hp hd hused hcap hfull =>
    refine ⟨es.map Emission.bytes ++ [(emission _ hp).bytes], ?_, fun b hb => ?_, Or.inr
      ⟨es.map Emission.bytes, (emission _ hp).bytes.take capacity, fun hnil => ?_, ?_⟩⟩
    · rw [List.flatten_append, hflat, List.flatten_singleton, ByteQueue.pending_ofList,
        List.append_assoc, List.take_append_drop]
    · rcases List.mem_append.mp hb with hb | hb
      · exact hcells b hb
      · rw [List.mem_singleton.mp hb]
        exact (isSequence_emission hp).isCell
    · rcases List.take_eq_nil_iff.mp hnil with hzero | hempty
      · exact Nat.ne_of_gt hcap hzero
      · rw [hempty] at hfull
        cases hfull
    · rw [ByteQueue.pending_ofList, List.take_append_drop]

end Screen
end RemoteScreen
