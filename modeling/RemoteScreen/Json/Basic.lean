/-!
JSON values as a document writes them: numbers keep their literals, and objects keep their members
in order, repeated names included.
-/

namespace RemoteScreen

/-- A text of a document. Escapes can write an unpaired surrogate, which no character is; such a
text is `none`. -/
abbrev Json.Text := Option String

/-- A value of a document. -/
inductive Json where
  | null
  | bool (b : Bool)
  /-- A number, as the characters of its literal. -/
  | number (literal : List Char)
  | text (t : Json.Text)
  | array (items : List Json)
  | object (members : List (Json.Text × Json))
  deriving Inhabited

end RemoteScreen
