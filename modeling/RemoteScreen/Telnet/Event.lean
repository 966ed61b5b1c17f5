import RemoteScreen.Telnet.Basic

/-!
What a client sends: keys, and commands of the protocol.
-/

namespace RemoteScreen.Telnet

/-- The keys that have a name. -/
inductive NamedKey where
  | space | enter | escape | up | down | left | right | tab | backspace
  deriving DecidableEq, Inhabited

/-- A key that a client can press. -/
inductive Key where
  | named (k : NamedKey)
  /-- A letter, as an ASCII byte. -/
  | letter (byte : UInt8)
  /-- A digit, by its value. -/
  | digit (value : UInt8)
  deriving DecidableEq, Inhabited

/-- What a client has said. -/
inductive Event where
  | key (k : Key)
  | negotiation (verb : Verb) (option : UInt8)
  /-- The client's window has this size. -/
  | windowSize (width height : UInt16)
  /-- A subnegotiation of any option but the window size. -/
  | subnegotiation (option : UInt8) (payload : List UInt8)
  /-- A command without an operand. -/
  | command (byte : UInt8)
  deriving DecidableEq, Inhabited

/-- The number that two bytes write, the more significant one first. -/
def wordOfBytes (high low : UInt8) : UInt16 :=
  UInt16.ofNat (high.toNat * 0x100 + low.toNat)

/-- What a complete subnegotiation reports. A window size that has not four bytes reports nothing. -/
def Event.ofSubnegotiation (option : UInt8) (payload : List UInt8) : Option Event :=
  if option = Telnet.windowSize then
    match payload with
    | [w₁, w₀, h₁, h₀] => some (.windowSize (wordOfBytes w₁ w₀) (wordOfBytes h₁ h₀))
    | _ => none
  else some (.subnegotiation option payload)

end RemoteScreen.Telnet
