import RemoteScreen.Json.Form
import RemoteScreen.Keyboard

/-!
The JSON form of directions.
-/

namespace RemoteScreen

open Json

instance : JsonForm Directions where
  toJson d :=
    record [("up", toJson d.up), ("down", toJson d.down), ("left", toJson d.left),
      ("right", toJson d.right)]
  ofJson? j := do
    let [up, down, left, right] ← fields? ["up", "down", "left", "right"] j | none
    return {
      up := ← required? up
      down := ← required? down
      left := ← required? left
      right := ← required? right
    }

end RemoteScreen
