import RemoteScreen.CodePoint
import RemoteScreen.ControlSequence
import RemoteScreen.Screen.Basic

/-!
What a screen sends. A pass looks at the cells in order and sends those that differ, each as one
sequence of bytes: a cursor move unless the cursor is there already, a change of style unless the
peer has it already, and the code point. A pass may take many calls, and stops between two cells
where the next one does not fit; a cell is split only if the buffer cannot hold it alone, and then
its tail goes out before anything else.
-/

namespace RemoteScreen.Screen

/-- What a call has sent. -/
structure Output where
  bytes : List UInt8
  /-- Whether there is more to send. -/
  pending : Bool
  deriving DecidableEq, Inhabited

/-- Whether there was nothing to send. -/
def Output.isIdle (o : Output) : Bool :=
  o.bytes.isEmpty && !o.pending

/-- The bytes of `next` at index `i` for the peer that is known to the screen. The cursor is moved
at the start of every row, because a peer may stay on the last column of a row that is full. -/
def encode (s : Screen) (i : Nat) (next : Cell) : List UInt8 :=
  let row := i / s.width
  let col := i % s.width
  let behindLast := s.peer.last.any (· + 1 = i)
  let move := if behindLast && col ≠ 0 then [] else ControlSequence.cursorPosition row col
  let change :=
    if s.peer.style.any (·.styleEq next) then [] else ControlSequence.setStyle s.peer.style next
  move ++ change ++ CodePoint.encode next.codePoint

/-- The screen after `next` has been sent at index `i`. -/
def commit (s : Screen) (i : Nat) (next : Cell) : Screen :=
  { s with
    shown := s.shown.setIfInBounds i next
    peer := ⟨some next.style, some i⟩
    position := i + 1 }

/-- Sends the tail of a split cell, or as much of it as fits. -/
def finishCell (s : Screen) (capacity : Nat) : Output × Screen :=
  let (bytes, tail) := s.tail.send capacity
  (⟨bytes, !tail.isDrained⟩, { s with tail })

/-- Runs the pass from its position on. `start` bytes of the buffer are taken by others, `out` is
what this call has sent so far, and with `all` the pass sends cells that do not differ as well. -/
def pass (all : Bool) (capacity start : Nat) (s : Screen) (out : Array UInt8) : Output × Screen :=
  if h : s.position < s.target.size then
    let i := s.position
    let next := s.target[i]
    if !all && s.shown[i]? = some next then
      pass all capacity start { s with position := i + 1 } out
    else
      let bytes := s.encode i next
      let used := start + out.size
      if used + bytes.length ≤ capacity then
        pass all capacity start (s.commit i next) (out ++ bytes)
      else if used = 0 && capacity ≠ 0 then
        let split := { s.commit i next with tail := .ofList (bytes.drop capacity) }
        (⟨bytes.take capacity, true⟩, split)
      else (⟨out.toList, true⟩, s)
  else
    let s := { s with position := 0, repaintOnce := false }
    (⟨out.toList, !s.isClean⟩, s)
termination_by s.target.size - s.position
decreasing_by
  · omega
  · simp only [commit]
    omega

/-- Sends into the rest of a buffer whose first `start` bytes are taken; there must be so many. -/
def sendAfter (s : Screen) (capacity start : Nat) : Output × Screen :=
  let (first, s) := s.finishCell (capacity - start)
  if first.pending then (first, s)
  else pass (s.repaintAlways || s.repaintOnce) capacity start s first.bytes.toArray

/-- Sends the cells that differ into a buffer whose first `start` bytes are taken. -/
def flushAfter (s : Screen) (capacity start : Nat) : Except Fault (Output × Screen) :=
  if start ≤ capacity then .ok (s.sendAfter capacity start)
  else .error (.startOutside start capacity)

/-- Sends the cells that differ into a buffer. -/
def flush (s : Screen) (capacity : Nat) : Output × Screen :=
  s.sendAfter capacity 0

end RemoteScreen.Screen
