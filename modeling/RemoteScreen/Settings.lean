import RemoteScreen.Cell

/-!
Settings of a connection and of its screen, with their defaults and the conditions under which they
can be used.
-/

namespace RemoteScreen

/-- The first size and the colours of a screen. -/
structure ScreenSettings where
  columns : UInt16 := 80
  rows : UInt16 := 25
  foreground : Color := .white
  background : Color := .black
  deriving DecidableEq, Inhabited

/-- How much a connection keeps, and the sizes that a client can give its screen. -/
structure ConnectionSettings where
  /-- The most bytes that wait to be sent ahead of the screen. -/
  outboundCapacity : UInt64 := 4096
  minColumns : UInt16 := 80
  minRows : UInt16 := 25
  maxColumns : UInt16 := 200
  maxRows : UInt16 := 200
  /-- The longest payload that is kept of a client's subnegotiation. -/
  maxSubnegotiation : UInt64 := 64
  /-- Whether options are negotiated when a connection begins. -/
  negotiateOnCreate : Bool := false
  deriving DecidableEq, Inhabited

/-- The settings of a connection and of its screen. -/
structure Settings where
  screen : ScreenSettings := {}
  connection : ConnectionSettings := {}
  deriving DecidableEq, Inhabited

/-- The style of blank cells. -/
def ScreenSettings.style (s : ScreenSettings) : Cell :=
  (Cell.empty.withForeground s.foreground).withBackground s.background

/-- A number raised to the lower bound and then cut to the upper one. -/
def clamp (low high n : UInt16) : UInt16 :=
  min (max n low) high

/-- The size that a screen takes when a client reports its window. -/
def ConnectionSettings.clampSize (s : ConnectionSettings) (width height : UInt16) :
    UInt16 × UInt16 :=
  (clamp s.minColumns s.maxColumns width, clamp s.minRows s.maxRows height)

/-- Why settings cannot be used. -/
inductive Settings.Invalidity where
  | noOutboundCapacity
  | noSubnegotiation
  | noMinimum
  | minimumAboveMaximum (minColumns minRows maxColumns maxRows : UInt16)
  | emptyScreen
  deriving DecidableEq

/-- What is wrong with the settings. -/
def Settings.Invalidity.reason : Invalidity → String
  | noOutboundCapacity => "outbound_capacity must be positive"
  | noSubnegotiation => "max_subnegotiation must be positive"
  | noMinimum => "minimum window size must be positive"
  | minimumAboveMaximum minColumns minRows maxColumns maxRows =>
    s!"minimum window size {minColumns}x{minRows} exceeds maximum {maxColumns}x{maxRows}"
  | emptyScreen => "canvas size must be positive"

/-- The text of a failed check. -/
def Settings.Invalidity.message (i : Invalidity) : String :=
  "invalid configuration: " ++ i.reason

/-- Accepts settings that can be used; of several failures the first is reported. -/
def Settings.validate (s : Settings) : Except Invalidity Unit :=
  let c := s.connection
  if c.outboundCapacity = 0 then .error .noOutboundCapacity
  else if c.maxSubnegotiation = 0 then .error .noSubnegotiation
  else if c.minColumns = 0 ∨ c.minRows = 0 then .error .noMinimum
  else if c.maxColumns < c.minColumns ∨ c.maxRows < c.minRows then
    .error (.minimumAboveMaximum c.minColumns c.minRows c.maxColumns c.maxRows)
  else if s.screen.columns = 0 ∨ s.screen.rows = 0 then .error .emptyScreen
  else .ok ()

end RemoteScreen
