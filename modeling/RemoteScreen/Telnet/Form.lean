import RemoteScreen.Json.Form
import RemoteScreen.Telnet.Event

/-!
The JSON forms of keys, verbs and events.
-/

namespace RemoteScreen.Telnet

open Json

/-- The name of a key in documents. -/
def NamedKey.name : NamedKey → String
  | .space => "Space"
  | .enter => "Enter"
  | .escape => "Escape"
  | .up => "Up"
  | .down => "Down"
  | .left => "Left"
  | .right => "Right"
  | .tab => "Tab"
  | .backspace => "Backspace"

/-- The key of a name in documents. -/
def NamedKey.ofName? (s : String) : Option NamedKey :=
  [NamedKey.space, .enter, .escape, .up, .down, .left, .right, .tab, .backspace].find? (·.name = s)

/-- The verb of a name in documents. -/
def Verb.ofName? (s : String) : Option Verb :=
  Verb.all.find? (·.name = s)

instance : JsonForm Verb where
  toJson v := ofString v.name
  ofJson? := plain? Verb.ofName?

/-- The key of an alternative's name and contents. -/
def Key.ofAlternative? : String × Option Json → Option Key
  | ("Letter", some contents) => (ofJson? contents).map .letter
  | ("Digit", some contents) => (ofJson? contents).map .digit
  | _ => none

instance : JsonForm Key where
  toJson
    | .named k => ofString k.name
    | .letter b => alternative "Letter" (toJson b)
    | .digit d => alternative "Digit" (toJson d)
  ofJson? j :=
    ((plain? NamedKey.ofName? j).map .named).or (j.alternative?.bind Key.ofAlternative?)

/-- The event of an alternative's name and contents. -/
def Event.ofAlternative? : String × Option Json → Option Event
  | ("Key", some contents) => (ofJson? contents).map .key
  | ("Negotiation", some contents) => do
    let [verb, option] ← fields? ["command", "option"] contents | none
    return .negotiation (← required? verb) (← required? option)
  | ("WindowSize", some contents) => do
    let [width, height] ← fields? ["width", "height"] contents | none
    return .windowSize (← required? width) (← required? height)
  | ("Subnegotiation", some contents) => do
    let [option, payload] ← fields? ["option", "payload"] contents | none
    return .subnegotiation (← required? option) (← required? payload)
  | ("Command", some contents) => (ofJson? contents).map .command
  | _ => none

instance : JsonForm Event where
  toJson
    | .key k => alternative "Key" (toJson k)
    | .negotiation verb option =>
      alternative "Negotiation" (record [("command", toJson verb), ("option", toJson option)])
    | .windowSize width height =>
      alternative "WindowSize" (record [("width", toJson width), ("height", toJson height)])
    | .subnegotiation option payload =>
      alternative "Subnegotiation"
        (record [("option", toJson option), ("payload", toJson payload)])
    | .command b => alternative "Command" (toJson b)
  ofJson? j := j.alternative?.bind Event.ofAlternative?

end RemoteScreen.Telnet
