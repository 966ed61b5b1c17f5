import RemoteScreen.Decimal
import RemoteScreen.Json.Printer
import RemoteScreen.Json.Reader

/-!
The JSON forms of values. A number is written as its digits and nothing else. A record is an object
with a member for each field, and is read from an array of the fields as well; members of other
names are passed over, repeated fields are not. An alternative without contents is the text of its
name, any other one an object whose only member is that name with the contents.
-/

namespace RemoteScreen

/-- Types whose values have a JSON form. -/
class JsonForm (α : Type) where
  toJson : α → Json
  ofJson? : Json → Option α

export JsonForm (toJson ofJson?)

namespace Json

/-- A text without surrogates. -/
def ofString (s : String) : Json :=
  .text (some s)

/-- A number, written in decimal digits. -/
def ofNat (n : Nat) : Json :=
  .number (Decimal.chars n)

/-- The number that is written as digits alone. -/
def nat? : Json → Option Nat
  | .number literal => Decimal.ofChars? literal
  | _ => none

/-- A number below `bound`. -/
def natBelow? (bound : Nat) (j : Json) : Option Nat :=
  j.nat?.filter (· < bound)

instance : JsonForm Bool where
  toJson := .bool
  ofJson?
    | .bool b => some b
    | _ => none

instance : JsonForm UInt8 where
  toJson n := ofNat n.toNat
  ofJson? j := (j.natBelow? UInt8.size).map UInt8.ofNat

instance : JsonForm UInt16 where
  toJson n := ofNat n.toNat
  ofJson? j := (j.natBelow? UInt16.size).map UInt16.ofNat

instance : JsonForm UInt32 where
  toJson n := ofNat n.toNat
  ofJson? j := (j.natBelow? UInt32.size).map UInt32.ofNat

instance : JsonForm UInt64 where
  toJson n := ofNat n.toNat
  ofJson? j := (j.natBelow? UInt64.size).map UInt64.ofNat

instance {α : Type} [JsonForm α] : JsonForm (List α) where
  toJson xs := .array (xs.map toJson)
  ofJson?
    | .array items => items.mapM ofJson?
    | _ => none

/-- A record with the given fields. -/
def record (fields : List (String × Json)) : Json :=
  .object (fields.map fun (name, v) => (some name, v))

/-- How often a name occurs among members. -/
def occurrences (members : List (Text × Json)) (name : String) : Nat :=
  members.countP (·.1 = some name)

/-- The value of the first member of a name. -/
def member? (members : List (Text × Json)) (name : String) : Option Json :=
  (members.find? (·.1 = some name)).map (·.2)

/-- The fields of a record, in the order of `names`; those that are missing are `none`. Fields may
be missing at the end of an array, but there may be none besides. -/
def fields? (names : List String) : Json → Option (List (Option Json))
  | .array items =>
    if items.length ≤ names.length then
      some (items.map some ++ List.replicate (names.length - items.length) none)
    else none
  | .object members =>
    if members.all (·.1.isSome) && names.all (occurrences members · ≤ 1) then
      some (names.map (member? members))
    else none
  | _ => none

/-- A field that must be there. -/
def required? {α : Type} [JsonForm α] (field : Option Json) : Option α :=
  field.bind ofJson?

/-- A field that has a default. -/
def optional? {α : Type} [JsonForm α] (default : α) : Option Json → Option α
  | none => some default
  | some j => ofJson? j

/-- An alternative with contents. -/
def alternative (name : String) (contents : Json) : Json :=
  record [(name, contents)]

/-- The name of an alternative, and its contents if it is written as an object. -/
def alternative? : Json → Option (String × Option Json)
  | .text (some name) => some (name, none)
  | .object [(some name, contents)] => some (name, some contents)
  | _ => none

/-- The alternative without contents whose name is given by `find`; its object form holds null. -/
def plain? {α : Type} (find : String → Option α) (j : Json) : Option α :=
  match j.alternative? with
  | some (name, none) => find name
  | some (name, some .null) => find name
  | _ => none

end Json
end RemoteScreen
