import RemoteScreen.Cell
import RemoteScreen.Json.Form

/-!
The JSON forms of colours and cells: a colour is its name, and a cell is its packed word, the unused
bit included.
-/

namespace RemoteScreen

open Json

instance : JsonForm Color where
  toJson c := ofString c.name
  ofJson? := plain? Color.ofName?

instance : JsonForm Cell where
  toJson c := toJson c.bits
  ofJson? j := (ofJson? j).map Cell.mk

end RemoteScreen
