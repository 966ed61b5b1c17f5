import RemoteScreen.Json.Token

/-!
Reading a JSON document. A machine takes the tokens one after another and keeps the arrays and
objects that are open on a stack, so documents may nest to any depth.
-/

namespace RemoteScreen.Json

/-- An array or object that is open, with what it holds so far, the last first. -/
inductive Frame where
  | array (items : List Json)
  | object (members : List (Text × Json))
  /-- An object whose next value has the name `name`. -/
  | member (members : List (Text × Json)) (name : Text)

/-- What may come next. -/
inductive Phase where
  /-- A value. -/
  | value
  /-- A value or the end of an array that holds none yet. -/
  | firstItem
  /-- A name or the end of an object that holds none yet. -/
  | firstName
  /-- A name. -/
  | name
  /-- The colon after the name `name`. -/
  | colon (name : Text)
  /-- What follows the value `v`. -/
  | after (v : Json)

/-- The arrays and objects that are open, the innermost first, and what may come next. -/
structure Machine where
  stack : List Frame
  phase : Phase

namespace Machine

/-- The machine before the first token. -/
def start : Machine := ⟨[], .value⟩

/-- A token where a value may begin. -/
def beginValue (stack : List Frame) : Token → Option Machine
  | .null => some ⟨stack, .after .null⟩
  | .bool b => some ⟨stack, .after (.bool b)⟩
  | .number literal => some ⟨stack, .after (.number literal)⟩
  | .text t => some ⟨stack, .after (.text t)⟩
  | .openBracket => some ⟨.array [] :: stack, .firstItem⟩
  | .openBrace => some ⟨.object [] :: stack, .firstName⟩
  | _ => none

/-- A token after the value `v`. -/
def afterValue (v : Json) : List Frame → Token → Option Machine
  | .array items :: stack, .comma => some ⟨.array (v :: items) :: stack, .value⟩
  | .array items :: stack, .closeBracket => some ⟨stack, .after (.array (v :: items).reverse)⟩
  | .member members name :: stack, .comma => some ⟨.object ((name, v) :: members) :: stack, .name⟩
  | .member members name :: stack, .closeBrace =>
    some ⟨stack, .after (.object ((name, v) :: members).reverse)⟩
  | _, _ => none

/-- One token. -/
def step (m : Machine) (t : Token) : Option Machine :=
  match m.phase, m.stack, t with
  | .value, stack, t => beginValue stack t
  | .firstItem, .array _ :: stack, .closeBracket => some ⟨stack, .after (.array [])⟩
  | .firstItem, stack, t => beginValue stack t
  | .firstName, .object _ :: stack, .closeBrace => some ⟨stack, .after (.object [])⟩
  | .firstName, stack, .text t => some ⟨stack, .colon t⟩
  | .name, stack, .text t => some ⟨stack, .colon t⟩
  | .colon name, .object members :: stack, .colon => some ⟨.member members name :: stack, .value⟩
  | .after v, stack, t => afterValue v stack t
  | _, _, _ => none

/-- The document that has been read, if nothing is open. -/
def result? : Machine → Option Json
  | ⟨[], .after v⟩ => some v
  | _ => none

/-- Reads the characters that are left. -/
def run (m : Machine) (cs : List Char) : Option Json :=
  match cs with
  | [] => m.result?
  | c :: rest =>
    if isBlank c then run m rest
    else match _h : Token.next? (c :: rest) with
      | none => none
      | some (t, left) =>
        match m.step t with
        | none => none
        | some m => run m left
termination_by cs.length
decreasing_by
  · simp
  · exact Token.next?_length (by assumption)

end Machine

/-- The value of a document: one value, with blanks around its tokens, and nothing else. -/
def read? (document : String) : Option Json :=
  Machine.start.run document.toList

end RemoteScreen.Json
