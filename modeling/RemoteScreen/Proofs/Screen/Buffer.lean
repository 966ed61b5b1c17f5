import RemoteScreen.Proofs.Screen.Style
import RemoteScreen.Proofs.Screen.WellFormed

/-! Sending into a buffer, with every access that could go wrong. An index, a slice, a difference or a
division has no value where it is out of range, so a call that reaches one has no value either. On the
screens that calls lead to none is reached, and what the buffer holds then is what the screen's own
calls send. -/

namespace RemoteScreen

/-! ### Accesses -/

/-- A difference, which has no value below zero. -/
def minus? (a b : Nat) : Option Nat :=
  if b ≤ a then some (a - b) else none

/-- Checks that an index is below a size. -/
def inRange? (i size : Nat) : Option Unit :=
  if i < size then some () else none

/-- The bytes from `low` up to `high`. -/
def slice? (bytes : List UInt8) (low high : Nat) : Option (List UInt8) :=
  if low ≤ high ∧ high ≤ bytes.length then some ((bytes.take high).drop low) else none

/-- The buffer with some bytes at `start` in the place of its own. -/
def overwrite (buffer : List UInt8) (start : Nat) (bytes : List UInt8) : List UInt8 :=
  buffer.take start ++ bytes ++ buffer.drop (start + bytes.length)

/-- The buffer with its bytes from `low` up to `high` replaced by as many others. -/
def replace? (buffer : List UInt8) (low high : Nat) (bytes : List UInt8) : Option (List UInt8) :=
  if low ≤ high ∧ high ≤ buffer.length ∧ bytes.length = high - low then
    some (overwrite buffer low bytes)
  else none

variable {buffer bytes : List UInt8} {start : Nat}

theorem minus?_of_le {a b : Nat} (h : b ≤ a) : minus? a b = some (a - b) := if_pos h

theorem slice?_front {n : Nat} (h : n ≤ bytes.length) : slice? bytes 0 n = some (bytes.take n) :=
  if_pos ⟨Nat.zero_le n, h⟩

theorem slice?_back {n : Nat} (h : n ≤ bytes.length) :
    slice? bytes n bytes.length = some (bytes.drop n) := by
  rw [slice?, if_pos ⟨h, Nat.le_refl _⟩, List.take_length]

theorem replace?_of_le (h : start + bytes.length ≤ buffer.length) :
    replace? buffer start (start + bytes.length) bytes = some (overwrite buffer start bytes) :=
  if_pos ⟨Nat.le_add_right _ _, h, (Nat.add_sub_cancel_left _ _).symm⟩

theorem overwrite_nil (buffer : List UInt8) (start : Nat) : overwrite buffer start [] = buffer := by
  rw [overwrite, List.append_nil, List.length_nil, Nat.add_zero, List.take_append_drop]

theorem length_overwrite (h : start + bytes.length ≤ buffer.length) :
    (overwrite buffer start bytes).length = buffer.length := by
  simp only [overwrite, List.length_append, List.length_take, List.length_drop]
  omega

theorem overwrite_append (hstart : start ≤ buffer.length) (bytes more : List UInt8) :
    overwrite (overwrite buffer start bytes) (start + bytes.length) more =
      overwrite buffer start (bytes ++ more) := by
  have hlength : (buffer.take start ++ bytes).length = start + bytes.length := by
    rw [List.length_append, List.length_take, Nat.min_eq_left hstart]
  have htake : (overwrite buffer start bytes).take (start + bytes.length) =
      buffer.take start ++ bytes :=
    List.take_left' hlength
  have hdrop : (overwrite buffer start bytes).drop (start + bytes.length + more.length) =
      buffer.drop (start + (bytes ++ more).length) := by
    rw [overwrite, ← hlength, List.drop_append, Nat.add_sub_cancel_left, hlength, List.drop_drop,
      List.length_append, Nat.add_assoc, List.drop_eq_nil_of_le, List.nil_append]
    rw [hlength]
    omega
  rw [overwrite, htake, hdrop, overwrite, List.append_assoc (buffer.take start)]

namespace Screen

variable {all : Bool} {s t : Screen}

/-! ### Calls with checks -/

/-- A buffer behind a call, and what the call answers. -/
structure Filled where
  buffer : List UInt8
  /-- How many bytes the call has sent. -/
  written : Nat
  pending : Bool
  deriving DecidableEq, Inhabited

/-- The bytes of a cell, whose row and column are found by dividing by the width. -/
def encode? (s : Screen) (i : Nat) (next : Cell) : Option (List UInt8) :=
  if s.width = 0 then none else some (s.encode i next)

/-- Whether the pass leaves out the cell at index `i`, for which it has to look at what has been sent,
unless it sends all. -/
def leavesOut? (all : Bool) (s : Screen) (i : Nat) (next : Cell) : Option Bool :=
  if all then some false else (s.shown[i]?).map fun c => decide (c = next)

/-- Copies the tail of a split cell into the buffer from `start` on, as far as it fits, and counts its
bytes. -/
def copyTail? (s : Screen) (buffer : List UInt8) (start : Nat) :
    Option (List UInt8 × Nat × Screen) := do
  let rest ← slice? s.tail.stored s.tail.sent s.tail.stored.length
  let room ← minus? buffer.length start
  let count := min rest.length room
  let head ← slice? rest 0 count
  let buffer ← replace? buffer start (start + count) head
  return (buffer, count, { s with tail := (s.tail.send room).2 })

/-- Runs the pass from its position on, behind `written` bytes of the buffer. The first `start` of them
are not the call's own. -/
def passInto? (all : Bool) (start : Nat) (s : Screen) (buffer : List UInt8) (written : Nat) :
    Option (Filled × Screen) :=
  if s.position < s.target.size then do
    let i := s.position
    let next ← s.target[i]?
    if ← s.leavesOut? all i next then
      passInto? all start { s with position := i + 1 } buffer written
    else
      let bytes ← s.encode? i next
      let room ← minus? buffer.length written
      if bytes.length ≤ room then
        let buffer ← replace? buffer written (written + bytes.length) bytes
        inRange? i s.shown.size
        passInto? all start (s.commit i next) buffer (written + bytes.length)
      else if written = 0 && buffer.length ≠ 0 then
        let head ← slice? bytes 0 room
        let rest ← slice? bytes room bytes.length
        let buffer ← replace? buffer 0 buffer.length head
        inRange? i s.shown.size
        return (⟨buffer, room, true⟩, { s.commit i next with tail := .ofList rest })
      else
        return (⟨buffer, ← minus? written start, true⟩, s)
  else
    return (⟨buffer, ← minus? written start, !s.endPass.isClean⟩, s.endPass)
termination_by s.target.size - s.position
decreasing_by
  · omega
  · simp only [commit]
    omega

/-- Sends the cells that differ into a buffer, behind the `start` bytes that it holds. -/
def flushInto? (s : Screen) (buffer : List UInt8) (start : Nat) : Option (Filled × Screen) := do
  let (buffer, count, t) ← s.copyTail? buffer start
  if t.tail.isDrained then passInto? t.forcing start t buffer (start + count)
  else return (⟨buffer, ← minus? (start + count) start, true⟩, t)

/-- Sends the tail of a split cell into a buffer. -/
def finishInto? (s : Screen) (buffer : List UInt8) : Option (Filled × Screen) := do
  let (buffer, count, t) ← s.copyTail? buffer 0
  return (⟨buffer, count, !t.tail.isDrained⟩, t)

/-! ### No check fails -/

/-- The buffer with what a call has sent, from `start` on. -/
def filled (buffer : List UInt8) (start : Nat) (answer : Output × Screen) : Filled × Screen :=
  (⟨overwrite buffer start answer.1.bytes, answer.1.bytes.length, answer.1.pending⟩, answer.2)

theorem encode?_eq (hw : WellFormed s) (h : s.position < s.target.size) (next : Cell) :
    s.encode? s.position next = some (s.encode s.position next) := by
  refine if_neg fun hzero => ?_
  rw [hw.size_target, hzero, Nat.zero_mul] at h
  exact Nat.not_lt_zero _ h

theorem leavesOut?_eq (all : Bool) {i : Nat} (h : i < s.shown.size) (next : Cell) :
    s.leavesOut? all i next = some (!all && decide (s.shown[i]? = some next)) := by
  rw [leavesOut?, Array.getElem?_eq_getElem h]
  cases all <;> simp

theorem copyTail?_eq (hw : WellFormed s) (hstart : start ≤ buffer.length) :
    s.copyTail? buffer start =
      some (overwrite buffer start (s.tail.pending.take (buffer.length - start)),
        (s.tail.pending.take (buffer.length - start)).length,
        { s with tail := (s.tail.send (buffer.length - start)).2 }) := by
  have hrest : slice? s.tail.stored s.tail.sent s.tail.stored.length = some s.tail.pending :=
    slice?_back hw.tail_valid
  have hcount : min s.tail.pending.length (buffer.length - start) =
      (s.tail.pending.take (buffer.length - start)).length := by
    rw [List.length_take, Nat.min_comm]
  have hhead : slice? s.tail.pending 0 (s.tail.pending.take (buffer.length - start)).length =
      some (s.tail.pending.take (buffer.length - start)) := by
    rw [slice?_front (List.length_take_le' _ _), List.length_take, ← List.take_eq_take_min]
  have hfits : start + (s.tail.pending.take (buffer.length - start)).length ≤ buffer.length := by
    rw [List.length_take]
    omega
  simp only [copyTail?, hrest, minus?_of_le hstart, hcount, hhead, replace?_of_le hfits,
    Option.bind_eq_bind, Option.bind_some, Option.pure_def]

theorem passInto?_of_due (hw : WellFormed s) (h : s.position < s.target.size) (hd : Due all s)
    {written : Nat} (hwritten : written ≤ buffer.length) :
    passInto? all start s buffer written =
      let bytes := (s.emission h).bytes
      let room := buffer.length - written
      if bytes.length ≤ room then do
        let buffer ← replace? buffer written (written + bytes.length) bytes
        passInto? all start (s.advance h) buffer (written + bytes.length)
      else if written = 0 && buffer.length ≠ 0 then do
        let head ← slice? bytes 0 room
        let rest ← slice? bytes room bytes.length
        let buffer ← replace? buffer 0 buffer.length head
        return (⟨buffer, room, true⟩, { s.advance h with tail := .ofList rest })
      else return (⟨buffer, ← minus? written start, true⟩, s) := by
  have hshown : s.position < s.shown.size := hw.size_eq ▸ h
  have hrange : inRange? s.position s.shown.size = some () := if_pos hshown
  rw [passInto?, if_pos h]
  simp only [Array.getElem?_eq_getElem h, leavesOut?_eq all hshown, encode?_eq hw h,
    minus?_of_le hwritten, hrange, if_neg ((due_iff h).mp hd), Option.bind_eq_bind,
    Option.bind_some]
  rfl

theorem passInto?_of_not_due (hw : WellFormed s) (h : s.position < s.target.size)
    (hd : ¬Due all s) (buffer : List UInt8) (written : Nat) :
    passInto? all start s buffer written =
      passInto? all start { s with position := s.position + 1 } buffer written := by
  have hshown : s.position < s.shown.size := hw.size_eq ▸ h
  have hskip := Decidable.not_not.mp (mt (due_iff h).mpr hd)
  rw [passInto?, if_pos h]
  simp only [Array.getElem?_eq_getElem h, leavesOut?_eq all hshown, if_pos hskip,
    Option.bind_eq_bind, Option.bind_some]

theorem passInto?_of_fits (hw : WellFormed s) (h : s.position < s.target.size) (hd : Due all s)
    {sent : List UInt8} (hstart : start ≤ buffer.length)
    (hfits : start + sent.length + (s.emission h).bytes.length ≤ buffer.length) :
    passInto? all start s (overwrite buffer start sent) (start + sent.length) =
      passInto? all start (s.advance h) (overwrite buffer start (sent ++ (s.emission h).bytes))
        (start + (sent ++ (s.emission h).bytes).length) := by
  have hlength : (overwrite buffer start sent).length = buffer.length := length_overwrite (by omega)
  rw [passInto?_of_due hw h hd (by omega)]
  dsimp only
  rw [if_pos (by omega), replace?_of_le (by omega), overwrite_append hstart, List.length_append,
    Nat.add_assoc]
  rfl

theorem passInto?_of_split (hw : WellFormed s) (h : s.position < s.target.size) (hd : Due all s)
    (hcap : buffer.length ≠ 0) (hfull : buffer.length < (s.emission h).bytes.length) :
    passInto? all 0 s buffer 0 =
      some (filled buffer 0 (⟨(s.emission h).bytes.take buffer.length, true⟩,
        { s.advance h with tail := .ofList ((s.emission h).bytes.drop buffer.length) })) := by
  have hle : buffer.length ≤ (s.emission h).bytes.length := Nat.le_of_lt hfull
  have htake : ((s.emission h).bytes.take buffer.length).length = buffer.length :=
    List.length_take_of_le hle
  have hreplace : replace? buffer 0 buffer.length ((s.emission h).bytes.take buffer.length) =
      some (overwrite buffer 0 ((s.emission h).bytes.take buffer.length)) :=
    if_pos ⟨Nat.zero_le _, Nat.le_refl _, htake⟩
  rw [passInto?_of_due hw h hd (Nat.zero_le _)]
  dsimp only
  rw [Nat.sub_zero, if_neg (Nat.not_le_of_lt hfull), if_pos (by simpa using hcap),
    slice?_front hle, slice?_back hle]
  simp only [Option.bind_eq_bind, Option.bind_some, hreplace, filled, htake]
  rfl

theorem filled_of_sent (buffer : List UInt8) (start : Nat) (sent : List UInt8) (pending : Bool)
    (t : Screen) :
    (do return (⟨overwrite buffer start sent, ← minus? (start + sent.length) start, pending⟩, t)) =
      some (filled buffer start (⟨sent, pending⟩, t)) := by
  rw [minus?_of_le (Nat.le_add_right _ _), Nat.add_sub_cancel_left]
  rfl

theorem passInto?_eq (hw : WellFormed s) {out : Array UInt8}
    (hfits : start + out.size ≤ buffer.length) :
    passInto? all start s (overwrite buffer start out.toList) (start + out.toList.length) =
      some (filled buffer start (pass all buffer.length start s out)) := by
  have hstart : start ≤ buffer.length := Nat.le_of_add_right_le hfits
  -- What stands in the buffer behind `start` is always what the pass has sent so far.
  fun_induction pass all buffer.length start s out with
  | case1 s out h i next hskip ih =>
    rw [passInto?_of_not_due hw h fun hd => (due_iff h).mp hd hskip]
    exact ih (hw.skip h) hfits
  | case2 s out h i next hdue bytes used hroom ih =>
    have hroom' : start + out.toList.length + bytes.length ≤ buffer.length := hroom
    rw [passInto?_of_fits hw h ((due_iff h).mpr hdue) hstart hroom', ← Array.toList_appendList]
    refine ih (hw.advance h) ?_
    rwa [← Array.length_toList, Array.toList_appendList, List.length_append, ← Nat.add_assoc]
  | case3 s out h i next hdue bytes used hroom hsplit split =>
    simp only [Bool.and_eq_true, decide_eq_true_eq] at hsplit
    obtain ⟨hused, hcap⟩ := hsplit
    have hempty : start = 0 := Nat.eq_zero_of_add_eq_zero_right hused
    have hout : out.toList = [] :=
      List.length_eq_zero_iff.mp (Nat.eq_zero_of_add_eq_zero_left hused)
    have hfull : buffer.length < bytes.length := by omega
    rw [hempty, hout, overwrite_nil]
    exact passInto?_of_split hw h ((due_iff h).mpr hdue) hcap hfull
  | case4 s out h i next hdue bytes used hroom hfull =>
    have hlength : (overwrite buffer start out.toList).length = buffer.length :=
      length_overwrite hfits
    have hlong : ¬(s.emission h).bytes.length ≤ buffer.length - (start + out.toList.length) := by
      have hused : used = start + out.toList.length := rfl
      have hbytes : (s.emission h).bytes.length = bytes.length := rfl
      omega
    have hnosplit : ¬(decide (start + out.toList.length = 0) && decide (buffer.length ≠ 0)) = true :=
      hfull
    rw [passInto?_of_due hw h ((due_iff h).mpr hdue) (by rwa [hlength])]
    dsimp only
    rw [hlength, if_neg hlong, if_neg hnosplit]
    exact filled_of_sent buffer start out.toList true s
  | case5 s out h s' =>
    rw [passInto?, if_neg h]
    exact filled_of_sent buffer start out.toList (!s.endPass.isClean) s.endPass

theorem flushInto?_eq (hw : WellFormed s) (hstart : start ≤ buffer.length) :
    s.flushInto? buffer start = some (filled buffer start (s.sendAfter buffer.length start)) := by
  have hfirst : (s.finishCell (buffer.length - start)).1.pending =
      !(s.tail.send (buffer.length - start)).2.isDrained := rfl
  rw [flushInto?, copyTail?_eq hw hstart, sendAfter]
  simp only [Option.bind_eq_bind, Option.bind_some, hfirst]
  cases hdrained : (s.tail.send (buffer.length - start)).2.isDrained with
  | true =>
    refine passInto?_eq (hw.setTail (hw.tail_valid.send _)) ?_
    rw [List.size_toArray, List.length_take]
    omega
  | false =>
    have hbytes : (s.finishCell (buffer.length - start)).1 =
        ⟨s.tail.pending.take (buffer.length - start), true⟩ := by
      simp only [finishCell, hdrained]
      rfl
    simp only [Bool.not_false, if_true, hbytes]
    exact filled_of_sent buffer start _ true _

theorem flushInto?_of_lt (h : buffer.length < start) : s.flushInto? buffer start = none := by
  have hroom : minus? buffer.length start = none := if_neg (Nat.not_le_of_lt h)
  rw [flushInto?, copyTail?, hroom]
  cases slice? s.tail.stored s.tail.sent s.tail.stored.length <;> rfl

theorem finishInto?_eq (hw : WellFormed s) (buffer : List UInt8) :
    s.finishInto? buffer = some (filled buffer 0 (s.finishCell buffer.length)) := by
  rw [finishInto?, copyTail?_eq hw (Nat.zero_le _)]
  rfl

/-- On every screen that calls lead to, refused ones included, both grids have a cell for each place, the
pass and what is known of the peer point into them, no more of the tail has been sent than there is,
and both styles have no code point and their unused bit clear. So no access of a sending call is out of
range, whatever the buffer, unless it is to begin behind the end of it; and all that the call does to
the buffer is to write there, from `start` on, what it sends. -/
theorem reachable_accesses_in_range (h : Reachable s) :
    WellFormed s ∧
    (∀ c ∈ [s.style, s.defaultStyle], c.codePoint = 0 ∧ c.bits &&& Cell.unusedMask = 0) ∧
    ∀ buffer : List UInt8,
      (∀ start ≤ buffer.length, ∃ o t, s.flushAfter buffer.length start = .ok (o, t) ∧
        s.flushInto? buffer start =
          some (⟨overwrite buffer start o.bytes, o.bytes.length, o.pending⟩, t)) ∧
      (∀ start, buffer.length < start → s.flushInto? buffer start = none) ∧
      ∃ o t, s.finishCell buffer.length = (o, t) ∧
        s.finishInto? buffer = some (⟨overwrite buffer 0 o.bytes, o.bytes.length, o.pending⟩, t) := by
  have hw := reachable_wellFormed h
  have hstyled := reachable_styled h
  refine ⟨hw, ?_, fun buffer => ⟨fun start hstart => ?_, fun start => flushInto?_of_lt, ?_⟩⟩
  · intro c hc
    simp only [List.mem_cons, List.not_mem_nil, or_false] at hc
    rcases hc with rfl | rfl
    · exact (Cell.isStyle_iff _).mp hstyled.style
    · exact (Cell.isStyle_iff _).mp hstyled.defaultStyle
  · exact ⟨_, _, flushAfter_eq_ok.mpr ⟨hstart, rfl⟩, flushInto?_eq hw hstart⟩
  · exact ⟨_, _, rfl, finishInto?_eq hw buffer⟩

/-- A screen shrinks while its first cell is split, and the buffer holds a byte of others. -/
theorem accesses_in_range_of_shrunk : ∃ s₀ s, create 3 1 .defaultStyle = .ok s₀ ∧
    (s₀.run [.flush 5 0, .perform (.setStyle ⟨0xFFFFFFFF⟩), .perform (.resize 1 1)]).2 = s ∧
    WellFormed s ∧ s.style.codePoint = 0 ∧ s.style.bits &&& Cell.unusedMask = 0 ∧
    ∃ o t, s.flushAfter 3 1 = .ok (o, t) ∧
      s.flushInto? [1, 2, 3] 1 =
        some (⟨overwrite [1, 2, 3] 1 o.bytes, o.bytes.length, o.pending⟩, t) := by
  obtain ⟨s₀, hnew⟩ : ∃ s₀, create 3 1 .defaultStyle = .ok s₀ := ⟨_, rfl⟩
  obtain ⟨hw, hstyle, hbuffers⟩ := reachable_accesses_in_range ((Reachable.create hnew).run
    [.flush 5 0, .perform (.setStyle ⟨0xFFFFFFFF⟩), .perform (.resize 1 1)])
  obtain ⟨hcode, hunused⟩ := hstyle _ List.mem_cons_self
  obtain ⟨hflush, -⟩ := hbuffers [1, 2, 3]
  exact ⟨s₀, _, hnew, rfl, hw, hcode, hunused, hflush 1 (by decide)⟩

end Screen
end RemoteScreen
