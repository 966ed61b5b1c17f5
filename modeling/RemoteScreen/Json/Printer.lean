import RemoteScreen.Decimal
import RemoteScreen.Json.Basic

/-!
Writing JSON documents, compact or laid out: then each item and each member stands on a line of its
own, indented by two spaces for each array or object around it, and an empty one takes no lines.
-/

namespace RemoteScreen.Json

/-- A digit of a hexadecimal number. -/
def hexDigit (n : Nat) : Char :=
  Char.ofNat (if n < 10 then 0x30 + n else 0x57 + n)

/-- A character inside quotes. -/
def quoteChar (c : Char) : List Char :=
  match c with
  | '"' => ['\\', '"']
  | '\\' => ['\\', '\\']
  | '\x08' => ['\\', 'b']
  | '\x0c' => ['\\', 'f']
  | '\n' => ['\\', 'n']
  | '\r' => ['\\', 'r']
  | '\t' => ['\\', 't']
  | c =>
    if c < ' ' then ['\\', 'u', '0', '0', hexDigit (c.toNat / 16), hexDigit (c.toNat % 16)] else [c]

/-- A text in quotes. One that no characters write is written as `null`. -/
def quote : Text → List Char
  | some t => '"' :: t.toList.flatMap quoteChar ++ ['"']
  | none => ['n', 'u', 'l', 'l']

/-- The spacing of a document. -/
structure Layout where
  /-- What begins a line inside `depth` arrays and objects. -/
  lineBreak (depth : Nat) : List Char
  /-- What stands between a name and its value. -/
  colon : List Char

/-- No spacing at all. -/
def Layout.compact : Layout where
  lineBreak _ := []
  colon := [':']

/-- Lines, indented by two spaces. -/
def Layout.lines : Layout where
  lineBreak depth := '\n' :: List.replicate (2 * depth) ' '
  colon := [':', ' ']

mutual

/-- The document of a value inside `depth` arrays and objects. -/
def print (layout : Layout) (depth : Nat) : Json → List Char
  | .null => ['n', 'u', 'l', 'l']
  | .bool true => ['t', 'r', 'u', 'e']
  | .bool false => ['f', 'a', 'l', 's', 'e']
  | .number literal => literal
  | .text t => quote t
  | .array [] => ['[', ']']
  | .array (v :: items) =>
    '[' :: layout.lineBreak (depth + 1) ++ print layout (depth + 1) v ++
      printItems layout (depth + 1) items ++ layout.lineBreak depth ++ [']']
  | .object [] => ['{', '}']
  | .object ((name, v) :: members) =>
    '{' :: layout.lineBreak (depth + 1) ++ quote name ++ layout.colon ++
      print layout (depth + 1) v ++ printMembers layout (depth + 1) members ++
      layout.lineBreak depth ++ ['}']

/-- The items of an array after the first one. -/
def printItems (layout : Layout) (depth : Nat) : List Json → List Char
  | [] => []
  | v :: items =>
    ',' :: layout.lineBreak depth ++ print layout depth v ++ printItems layout depth items

/-- The members of an object after the first one. -/
def printMembers (layout : Layout) (depth : Nat) : List (Text × Json) → List Char
  | [] => []
  | (name, v) :: members =>
    ',' :: layout.lineBreak depth ++ quote name ++ layout.colon ++ print layout depth v ++
      printMembers layout depth members

end

/-- A document without spaces. -/
def compact (j : Json) : String :=
  String.ofList (print .compact 0 j)

/-- A document in lines. -/
def pretty (j : Json) : String :=
  String.ofList (print .lines 0 j)

end RemoteScreen.Json
