/-!
A queue of bytes that are sent in order and stay stored until the next write. `pending` is what has
not been sent yet; every operation is described through it.
-/

namespace RemoteScreen

/-- Bytes in the order of sending, of which the first ones have been sent. -/
structure ByteQueue where
  stored : List UInt8 := []
  /-- How many of the stored bytes have been sent. -/
  sent : Nat := 0
  deriving DecidableEq, Inhabited

namespace ByteQueue

/-- The bytes that have not been sent. -/
def pending (q : ByteQueue) : List UInt8 :=
  q.stored.drop q.sent

/-- How many bytes have not been sent. -/
def size (q : ByteQueue) : Nat :=
  q.stored.length - q.sent

/-- Whether every byte has been sent. -/
def isDrained (q : ByteQueue) : Bool :=
  q.size = 0

/-- A queue that holds no bytes. -/
def empty : ByteQueue := {}

/-- A queue in which nothing has been sent. -/
def ofList (bytes : List UInt8) : ByteQueue :=
  ⟨bytes, 0⟩

/-- Appends bytes and forgets those that have been sent. -/
def push (q : ByteQueue) (bytes : List UInt8) : ByteQueue :=
  ⟨q.pending ++ bytes, 0⟩

/-- Sends as many bytes as fit into `room`, and forgets them once all are sent. -/
def send (q : ByteQueue) (room : Nat) : List UInt8 × ByteQueue :=
  (q.pending.take room, if q.size ≤ room then empty else { q with sent := q.sent + room })

@[simp] theorem length_pending (q : ByteQueue) : q.pending.length = q.size := by
  simp [pending, size]

theorem pending_eq_nil_iff (q : ByteQueue) : q.pending = [] ↔ q.size = 0 := by
  rw [← List.length_eq_zero_iff, length_pending]

theorem isDrained_iff (q : ByteQueue) : q.isDrained = true ↔ q.pending = [] := by
  simp [isDrained, pending_eq_nil_iff]

theorem take_pending {q : ByteQueue} {n : Nat} (h : q.size ≤ n) : q.pending.take n = q.pending :=
  List.take_of_length_le (by rwa [length_pending])

theorem drop_pending {q : ByteQueue} {n : Nat} (h : q.size ≤ n) : q.pending.drop n = [] :=
  List.drop_eq_nil_of_le (by rwa [length_pending])

@[simp] theorem pending_ofList (bytes : List UInt8) : (ofList bytes).pending = bytes := rfl

@[simp] theorem pending_push (q : ByteQueue) (bytes : List UInt8) :
    (q.push bytes).pending = q.pending ++ bytes := rfl

@[simp] theorem send_fst (q : ByteQueue) (room : Nat) : (q.send room).1 = q.pending.take room := rfl

@[simp] theorem pending_empty : empty.pending = [] := rfl

@[simp] theorem size_empty : empty.size = 0 := rfl

@[simp] theorem size_ofList (bytes : List UInt8) : (ofList bytes).size = bytes.length := rfl

@[simp] theorem size_push (q : ByteQueue) (bytes : List UInt8) :
    (q.push bytes).size = q.size + bytes.length := by
  rw [← length_pending, pending_push, List.length_append, length_pending]

@[simp] theorem pending_send (q : ByteQueue) (room : Nat) :
    (q.send room).2.pending = q.pending.drop room := by
  unfold send
  split
  next h => rw [pending_empty, drop_pending h]
  next => rw [pending, pending, List.drop_drop]

@[simp] theorem size_send (q : ByteQueue) (room : Nat) : (q.send room).2.size = q.size - room := by
  rw [← length_pending, pending_send, List.length_drop, length_pending]

/-- No more bytes have been sent than are stored. -/
def Valid (q : ByteQueue) : Prop :=
  q.sent ≤ q.stored.length

theorem Valid.empty : empty.Valid := Nat.le_refl _

theorem Valid.ofList (bytes : List UInt8) : (ofList bytes).Valid := Nat.zero_le _

theorem Valid.push (q : ByteQueue) (bytes : List UInt8) : (q.push bytes).Valid := Nat.zero_le _

theorem Valid.send {q : ByteQueue} (h : q.Valid) (room : Nat) : (q.send room).2.Valid := by
  unfold ByteQueue.send
  split
  · exact Valid.empty
  next hr =>
    simp only [Valid, size] at h hr ⊢
    omega

end ByteQueue
end RemoteScreen
