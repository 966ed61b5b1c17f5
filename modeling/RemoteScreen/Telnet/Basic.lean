/-!
The bytes of the Telnet protocol: commands begin with IAC, and options are negotiated by one of
four verbs.
-/

namespace RemoteScreen.Telnet

/-- Begins every command. -/
def iac : UInt8 := 0xFF

/-- Begins a subnegotiation. -/
def sb : UInt8 := 0xFA

/-- Ends a subnegotiation. -/
def se : UInt8 := 0xF0

/-- The option of echoing what is received. -/
def echo : UInt8 := 1

/-- The option of sending no go-ahead signals. -/
def suppressGoAhead : UInt8 := 3

/-- The option of reporting the window size. -/
def windowSize : UInt8 := 31

/-- The verbs of negotiation: `will` and `wont` speak of the sender, `ask` (DO) and `forbid` (DONT)
of the receiver. -/
inductive Verb where
  | will | wont | ask | forbid
  deriving DecidableEq, Inhabited

namespace Verb

/-- Every verb. -/
def all : List Verb :=
  [will, wont, ask, forbid]

/-- The byte of a verb. -/
def byte : Verb → UInt8
  | will => 0xFB
  | wont => 0xFC
  | ask => 0xFD
  | forbid => 0xFE

/-- The verb of a byte, if it is one. -/
def ofByte? (b : UInt8) : Option Verb :=
  if b = 0xFB then some will
  else if b = 0xFC then some wont
  else if b = 0xFD then some ask
  else if b = 0xFE then some forbid
  else none

@[simp] theorem ofByte?_byte (v : Verb) : ofByte? v.byte = some v := by
  cases v <;> rfl

theorem ofByte?_eq_some_iff {b : UInt8} {v : Verb} : ofByte? b = some v ↔ b = v.byte := by
  constructor
  · intro h
    unfold ofByte? at h
    split at h
    · cases h; assumption
    split at h
    · cases h; assumption
    split at h
    · cases h; assumption
    split at h
    · cases h; assumption
    · cases h
  · rintro rfl
    exact ofByte?_byte v

/-- Whether the verb is in favour of the option. -/
def isPositive : Verb → Bool
  | will | ask => true
  | wont | forbid => false

/-- The protocol's word for a verb. -/
def name : Verb → String
  | will => "Will"
  | wont => "Wont"
  | ask => "Do"
  | forbid => "Dont"

/-- The command that applies the verb to an option. -/
def command (v : Verb) (option : UInt8) : List UInt8 :=
  [iac, v.byte, option]

end Verb
end RemoteScreen.Telnet
