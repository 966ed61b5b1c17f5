import RemoteScreen.Telnet.Event

/-!
The decoder of client input, a machine that reads one byte at a time. Arrow keys are `ESC [` and a
letter; an ESC that begins no arrow is the escape key, also at the end of a read, since a client
sends an arrow in one piece. Payloads longer than the limit are skipped to their end.
-/

namespace RemoteScreen.Telnet

/-- The byte that begins an arrow, or is the escape key. -/
def esc : UInt8 := 0x1B

/-- The byte between ESC and the letter of an arrow. -/
def bracket : UInt8 := 0x5B

namespace Decoder

/-- Where the machine is in its input, with what it has collected. -/
inductive Mode where
  | ground
  /-- After ESC. -/
  | escape
  /-- After `ESC [`. -/
  | arrow
  /-- After IAC. -/
  | command
  /-- After IAC and a verb. -/
  | option (verb : Verb)
  /-- After IAC SB. -/
  | subnegotiation
  /-- In the payload of a subnegotiation. -/
  | payload (option : UInt8) (bytes : List UInt8)
  /-- After an IAC in the payload. -/
  | payloadCommand (option : UInt8) (bytes : List UInt8)
  /-- In a payload that is skipped. -/
  | skipped
  /-- After an IAC in a payload that is skipped. -/
  | skippedCommand
  deriving DecidableEq, Inhabited

/-- The key of a plain byte. -/
def key? (b : UInt8) : Option Key :=
  if b = 0x20 then some (.named .space)
  else if 0x61 ≤ b ∧ b ≤ 0x7A then some (.letter b)
  else if 0x41 ≤ b ∧ b ≤ 0x5A then some (.letter (b + 0x20))
  else if 0x30 ≤ b ∧ b ≤ 0x39 then some (.digit (b - 0x30))
  else if b = 0x0D then some (.named .enter)
  else if b = 0x09 then some (.named .tab)
  else if b = 0x7F ∨ b = 0x08 then some (.named .backspace)
  else none

/-- The arrow of the byte after `ESC [`. -/
def arrowKey? (b : UInt8) : Option Key :=
  if b = 0x41 then some (.named .up)
  else if b = 0x42 then some (.named .down)
  else if b = 0x43 then some (.named .right)
  else if b = 0x44 then some (.named .left)
  else none

/-- A byte outside every sequence. -/
def readGround (b : UInt8) : Mode × List Event :=
  if b = esc then (.escape, [])
  else if b = iac then (.command, [])
  else (.ground, (key? b).toList.map .key)

/-- A byte after an ESC that turned out to be a key. -/
def readAfterEscape (b : UInt8) : Mode × List Event :=
  let (mode, events) := readGround b
  (mode, .key (.named .escape) :: events)

/-- A byte after IAC. A doubled IAC is a data byte, and no key. -/
def readCommand (b : UInt8) : Mode × List Event :=
  if b = iac then (.ground, [])
  else if b = sb then (.subnegotiation, [])
  else match Verb.ofByte? b with
    | some verb => (.option verb, [])
    | none => (.ground, [.command b])

/-- Takes a byte into a payload, or gives the payload up when it is full. -/
def collect (limit : Nat) (option : UInt8) (bytes : List UInt8) (b : UInt8) : Mode :=
  if bytes.length < limit then .payload option (bytes ++ [b]) else .skipped

/-- One byte: the mode after it, and the events that it completes. -/
def step (limit : Nat) (mode : Mode) (b : UInt8) : Mode × List Event :=
  match mode with
  | .ground => readGround b
  | .escape => if b = bracket then (.arrow, []) else readAfterEscape b
  | .arrow =>
    match arrowKey? b with
    | some key => (.ground, [.key key])
    | none => readAfterEscape b
  | .command => readCommand b
  | .option verb => (.ground, [.negotiation verb b])
  | .subnegotiation => (.payload b [], [])
  | .payload option bytes =>
    if b = iac then (.payloadCommand option bytes, []) else (collect limit option bytes b, [])
  | .payloadCommand option bytes =>
    if b = iac then (collect limit option bytes b, [])
    else if b = se then (.ground, (Event.ofSubnegotiation option bytes).toList)
    else readCommand b
  | .skipped => if b = iac then (.skippedCommand, []) else (.skipped, [])
  | .skippedCommand =>
    if b = iac then (.skipped, [])
    else if b = se then (.ground, [])
    else readCommand b

/-- The end of a read: an ESC that still waits is the escape key. -/
def settle : Mode → Mode × List Event
  | .escape => (.ground, [.key (.named .escape)])
  | mode => (mode, [])

/-- Reads bytes from a mode on. -/
def run (limit : Nat) (mode : Mode) (bytes : List UInt8) : Mode × Array Event :=
  bytes.foldl (fun (m, events) b => let (m, new) := step limit m b; (m, events ++ new)) (mode, #[])

@[simp] theorem run_nil (limit : Nat) (mode : Mode) : run limit mode [] = (mode, #[]) := rfl

private theorem foldl_step (limit : Nat) (mode : Mode) (events : Array Event) (bytes : List UInt8) :
    bytes.foldl (fun (m, es) b => let (m, new) := step limit m b; (m, es ++ new)) (mode, events) =
      ((run limit mode bytes).1, events ++ (run limit mode bytes).2) := by
  induction bytes generalizing mode events with
  | nil => simp
  | cons b bytes ih =>
    rw [run, List.foldl_cons, List.foldl_cons]
    simp only [ih, Prod.mk.injEq, true_and]
    apply Array.toList_inj.1
    simp

/-- Reading goes on where it stopped. -/
theorem run_append (limit : Nat) (mode : Mode) (a b : List UInt8) :
    run limit mode (a ++ b) =
      ((run limit (run limit mode a).1 b).1,
        (run limit mode a).2 ++ (run limit (run limit mode a).1 b).2) := by
  rw [run, List.foldl_append]
  exact foldl_step limit (run limit mode a).1 (run limit mode a).2 b

theorem run_cons (limit : Nat) (mode : Mode) (b : UInt8) (bytes : List UInt8) :
    run limit mode (b :: bytes) =
      ((run limit (step limit mode b).1 bytes).1,
        (step limit mode b).2.toArray ++ (run limit (step limit mode b).1 bytes).2) := by
  rw [← List.singleton_append, run_append]
  simp only [run, List.foldl_cons, List.foldl_nil, Prod.mk.injEq, true_and]
  apply Array.toList_inj.1
  simp

end Decoder

/-- A decoder between two reads. -/
structure Decoder where
  /-- The longest payload that is kept. -/
  limit : Nat
  mode : Decoder.Mode := .ground
  deriving DecidableEq, Inhabited

namespace Decoder

/-- The longest payload that is kept if nothing else is said. -/
def defaultLimit : Nat := 64

/-- Whether no sequence is incomplete. -/
def isIdle (d : Decoder) : Bool :=
  d.mode = .ground

/-- Drops an incomplete sequence. -/
def reset (d : Decoder) : Decoder :=
  { d with mode := .ground }

/-- Decodes the bytes of one read. -/
def parse (d : Decoder) (bytes : List UInt8) : List Event × Decoder :=
  let (mode, events) := run d.limit d.mode bytes
  let (mode, last) := settle mode
  (events.toList ++ last, { d with mode })

end Decoder
end RemoteScreen.Telnet
