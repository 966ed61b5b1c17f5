import RemoteScreen.Snapshot

/-!
What can be done to a screen apart from sending, as data: a screen's history is a list of actions.
-/

namespace RemoteScreen.Screen

/-- What can be done to a screen, sending apart. -/
inductive Action where
  | resize (width height : Nat)
  | erase
  | setStyle (style : Cell)
  | resetStyle
  | setAttribute (a : Attribute) (on : Bool)
  | setForeground (color : Color)
  | setBackground (color : Color)
  | put (x y cp : Nat)
  | write (x y : Nat) (text : String)
  | writeBytes (x y w h : Nat) (bytes : List UInt8)
  | writeBlock (x y w h : Nat) (cps : List Nat)
  | blit (x y w h : Nat) (cells : List Cell)
  | fill (x y w h cp : Nat)
  | rect (x y w h cp : Nat)
  | line (x₀ y₀ x₁ y₁ cp : Nat)
  | restore (s : Snapshot)
  | repaintAlways (on : Bool)
  | repaintOnce
  | forgetPeer
  deriving DecidableEq, Inhabited

/-- The screen after an action, unless it refuses it. -/
def perform (s : Screen) : Action → Except Fault Screen
  | .resize width height => s.resize width height
  | .erase => .ok s.erase
  | .setStyle style => .ok (s.setStyle style)
  | .resetStyle => .ok s.resetStyle
  | .setAttribute a on => .ok (s.setAttribute a on)
  | .setForeground color => .ok (s.setForeground color)
  | .setBackground color => .ok (s.setBackground color)
  | .put x y cp => s.put x y cp
  | .write x y text => s.write x y text
  | .writeBytes x y w h bytes => s.writeBytes x y w h bytes
  | .writeBlock x y w h cps => s.writeBlock x y w h cps
  | .blit x y w h cells => s.blit x y w h cells
  | .fill x y w h cp => s.fill x y w h cp
  | .rect x y w h cp => s.rect x y w h cp
  | .line x₀ y₀ x₁ y₁ cp => s.line x₀ y₀ x₁ y₁ cp
  | .restore snapshot => snapshot.restore s
  | .repaintAlways on => .ok (s.setRepaintAlways on)
  | .repaintOnce => .ok s.requestRepaint
  | .forgetPeer => .ok s.forgetPeer

end RemoteScreen.Screen
