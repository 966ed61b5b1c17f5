import RemoteScreen.Cell.Form
import RemoteScreen.Snapshot

/-!
The JSON form of snapshots, and loading them from documents.
-/

namespace RemoteScreen

open Json

instance : JsonForm Snapshot where
  toJson s :=
    record [("width", ofNat s.width), ("height", ofNat s.height), ("cells", toJson s.cells)]
  ofJson? j := do
    let [width, height, cells] ← fields? ["width", "height", "cells"] j | none
    let width : UInt64 ← required? width
    let height : UInt64 ← required? height
    return ⟨width.toNat, height.toNat, ← required? cells⟩

namespace Snapshot

/-- The document of a snapshot, in lines. -/
def toDocument (s : Snapshot) : String :=
  (toJson s).pretty

/-- The snapshot of a document, if its cells fill the grid. -/
def ofDocument (document : String) : Except LoadError Snapshot :=
  match (Json.read? document).bind ofJson? with
  | some s => check s
  | none => .error .malformed

end Snapshot
end RemoteScreen
