import RemoteScreen.Keyboard
import RemoteScreen.Screen.Output
import RemoteScreen.Settings
import RemoteScreen.Telnet.Decoder

/-!
One client's connection: its screen, the decoder and the keyboard for what the client sends, and a
bounded queue of bytes that go out ahead of the screen. Queued bytes may move the peer's cursor and
change its style, so the screen forgets the peer after them.
-/

namespace RemoteScreen

/-- What one side keeps of its connection to a client. -/
structure Connection where
  screen : Screen
  decoder : Telnet.Decoder
  keyboard : Keyboard
  settings : ConnectionSettings
  /-- Bytes that go out ahead of the screen. -/
  outbound : ByteQueue
  /-- Whether the client has agreed to report its window size. -/
  reportsWindowSize : Bool
  deriving DecidableEq, Inhabited

namespace Connection

open Telnet (Verb Event)

/-- The negotiation that begins a session: this side echoes and the client does not, nobody sends
go-ahead signals, and the client reports its window size. -/
def negotiation : List UInt8 :=
  Verb.will.command Telnet.echo ++ Verb.forbid.command Telnet.echo ++
    Verb.will.command Telnet.suppressGoAhead ++ Verb.ask.command Telnet.windowSize

/-- How many queued bytes have not been sent. -/
def queued (c : Connection) : Nat :=
  c.outbound.size

/-- Whether the queue has room for `n` more bytes. -/
def HasRoom (c : Connection) (n : Nat) : Prop :=
  c.queued + n ≤ c.settings.outboundCapacity.toNat

instance (c : Connection) (n : Nat) : Decidable (c.HasRoom n) :=
  inferInstanceAs (Decidable (_ ≤ _))

/-- What can be put into the queue. -/
inductive Request where
  | bytes (b : List UInt8)
  | text (t : String)
  /-- The negotiation that begins a session. -/
  | negotiation
  /-- A return to the peer's own style. -/
  | resetStyle
  /-- A clearing of the peer's screen, with a repaint to follow it. -/
  | clearScreen
  /-- A move of the cursor to column `x` of row `y`. -/
  | moveCursor (x y : Nat)
  | cursorVisible (visible : Bool)
  deriving DecidableEq, Inhabited

/-- The bytes of a request. -/
def Request.encode : Request → List UInt8
  | bytes b => b
  | text t => CodePoint.encodeText t
  | negotiation => Connection.negotiation
  | resetStyle => ControlSequence.reset
  | clearScreen => ControlSequence.clearScreen
  | moveCursor x y => ControlSequence.cursorPosition y x
  | cursorVisible visible => ControlSequence.cursorVisible visible

/-- The screen after a request has been accepted. -/
def Request.screenAfter (r : Request) (s : Screen) : Screen :=
  match r with
  | clearScreen => s.requestRepaint
  | _ => s

/-- Queues all bytes of a request, or none of them; tells which. -/
def submit (c : Connection) (r : Request) : Bool × Connection :=
  if c.HasRoom r.encode.length then
    (true, { c with
      screen := r.screenAfter c.screen
      outbound := c.outbound.push r.encode })
  else (false, c)

/-- A connection with the given screen. -/
def create (screen : Screen) (settings : ConnectionSettings) : Except Fault Connection :=
  let capacity := settings.outboundCapacity.toNat
  if capacity ≤ maxObjectBytes then
    let c : Connection := {
      screen, settings
      decoder := { limit := settings.maxSubnegotiation.toNat }
      keyboard := {}
      outbound := .empty
      reportsWindowSize := false
    }
    .ok (if settings.negotiateOnCreate then (c.submit .negotiation).2 else c)
  else .error (.queueTooLarge capacity)

/-- A connection with a blank screen, both as set. -/
def ofSettings (s : Settings) : Except Fault Connection := do
  let screen ← Screen.create s.screen.columns.toNat s.screen.rows.toNat s.screen.style
  create screen s.connection

/-- Takes over the size of the client's window, as far as the settings allow. Two 16-bit extents
are always addressable. -/
def resizeTo (c : Connection) (width height : UInt16) : Connection :=
  let (columns, rows) := c.settings.clampSize width height
  { c with screen := c.screen.reshape columns.toNat rows.toNat }

/-- What an event of the client does. -/
def apply (c : Connection) : Event → Connection
  | .key k => { c with keyboard := c.keyboard.press k }
  | .negotiation verb option =>
    if option = Telnet.windowSize then { c with reportsWindowSize := verb.isPositive } else c
  | .windowSize width height => c.resizeTo width height
  | .subnegotiation _ _ => c
  | .command _ => c

/-- Decodes the bytes of one read and does what they say. -/
def parse (c : Connection) (bytes : List UInt8) : Connection :=
  let (events, decoder) := c.decoder.parse bytes
  events.foldl apply { c with decoder }

/-- Forgets the keys pressed so far. -/
def clearKeyboard (c : Connection) : Connection :=
  { c with keyboard := c.keyboard.clear }

/-- Sends what is pending: the tail of a split cell first, because nothing may come between the
bytes of a cell, then the queue, then the screen. -/
def flush (c : Connection) (capacity : Nat) : Screen.Output × Connection :=
  let (tail, screen) := c.screen.finishCell capacity
  if tail.pending then (tail, { c with screen })
  else
    let (queued, outbound) := c.outbound.send (capacity - tail.bytes.length)
    let sent := tail.bytes ++ queued
    if !outbound.isDrained then (⟨sent, true⟩, { c with screen, outbound })
    else
      let screen := if c.outbound.isDrained then screen else screen.forgetPeer
      let (drawn, screen) := screen.sendAfter capacity sent.length
      (⟨sent ++ drawn.bytes, drawn.pending⟩, { c with screen, outbound })

end Connection
end RemoteScreen
