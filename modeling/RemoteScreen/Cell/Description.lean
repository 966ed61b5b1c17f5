import RemoteScreen.Cell
import RemoteScreen.Printable

/-!
One-line descriptions of cells for logs and failed checks. A glyph stands between single quotes;
what cannot be shown is escaped. A code point that is no character is written as a number.
-/

namespace RemoteScreen.Cell

/-- The hexadecimal digits of a number, in lower case. -/
def hexadecimal (n : Nat) : String :=
  String.ofList (Nat.toDigits 16 n)

/-- A character as it stands between single quotes. -/
def quotedChar (c : Char) : String :=
  match c with
  | '\x00' => "\\0"
  | '\t' => "\\t"
  | '\r' => "\\r"
  | '\n' => "\\n"
  | '\\' => "\\\\"
  | '\'' => "\\'"
  | c => if isPrintable c then c.toString else "\\u\x7b" ++ hexadecimal c.toNat ++ "\x7d"

/-- The word for whether an attribute is set. -/
def describeFlag (on : Bool) : String :=
  if on then "true" else "false"

/-- The description of a cell, with every field by name. -/
def describe (c : Cell) : String :=
  let glyph := match c.char? with
    | some ch => "glyph: '" ++ quotedChar ch ++ "'"
    | none => "code_point: 0x" ++ hexadecimal c.codePoint
  let fields := [glyph,
    "fg: " ++ c.foreground.title,
    "bg: " ++ c.background.title,
    "bold: " ++ describeFlag (c.has .bold),
    "italic: " ++ describeFlag (c.has .italic),
    "underline: " ++ describeFlag (c.has .underline),
    "blink: " ++ describeFlag (c.has .blink)]
  "Cell \x7b " ++ ", ".intercalate fields ++ " \x7d"

end RemoteScreen.Cell
