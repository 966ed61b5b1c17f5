import RemoteScreen.Json.Form

/-!
Numbers that tell sessions apart, given out from one on.
-/

namespace RemoteScreen

/-- The number of one session. -/
structure SessionId where
  number : UInt64
  deriving DecidableEq, Inhabited

namespace SessionId

/-- An id as it is shown. -/
def describe (id : SessionId) : String :=
  "#" ++ toString id.number

/-- Whether an id comes no later than another one. -/
def le (a b : SessionId) : Bool :=
  a.number ≤ b.number

/-- Ids in ascending order. -/
def sort (ids : List SessionId) : List SessionId :=
  ids.mergeSort le

instance : JsonForm SessionId where
  toJson id := toJson id.number
  ofJson? j := (ofJson? j).map SessionId.mk

end SessionId

/-- The source of session ids. -/
structure SessionIds where
  next : UInt64 := 1
  deriving DecidableEq, Inhabited

/-- The next id; after the largest number the numbers begin again at zero. -/
def SessionIds.draw (ids : SessionIds) : SessionId × SessionIds :=
  (⟨ids.next⟩, ⟨ids.next + 1⟩)

/-- The next `n` ids. -/
def SessionIds.take (ids : SessionIds) : Nat → List SessionId
  | 0 => []
  | n + 1 => ids.draw.1 :: ids.draw.2.take n

end RemoteScreen
