import RemoteScreen.Decimal

/-!
The command line of the replay tool.
-/

namespace RemoteScreen.Replay

/-- What is printed after the input has been replayed. -/
inductive Format where
  | summary | text | json
  deriving DecidableEq, Inhabited

/-- What the command line asks for. -/
structure Options where
  /-- Overrides the columns of the settings. -/
  columns : Option UInt16 := none
  /-- Overrides the rows of the settings. -/
  rows : Option UInt16 := none
  /-- Bytes of one read; zero for all at once. -/
  chunk : Nat := 0
  /-- The file to read in place of standard input. -/
  file : Option String := none
  format : Format := .summary
  help : Bool := false
  deriving Inhabited

/-- A number below `bound`: ASCII digits, after a plus sign or not. -/
def number? (bound : Nat) (text : String) : Option Nat :=
  let digits := match text.toList with
    | '+' :: rest => rest
    | cs => cs
  (Decimal.ofChars? digits).filter (· < bound)

/-- A count of columns or rows. -/
def extent? (text : String) : Option UInt16 :=
  (number? UInt16.size text).map UInt16.ofNat

/-- An argument that takes no value. One that is no option names the file, if none is named yet. -/
def Options.flag (o : Options) (arg : String) : Options :=
  if arg = "-j" ∨ arg = "--json" then { o with format := .json }
  else if arg = "-t" ∨ arg = "--text" then { o with format := .text }
  else if arg = "-h" ∨ arg = "--help" then { o with help := true }
  else if o.file.isNone && !arg.startsWith "-" then { o with file := some arg }
  else o

/-- Reads arguments from the left. An option that lacks its value says nothing, a value that is no
number leaves things as they were, and of several files the last one named by an option wins over
the first one named without. -/
def Options.parse (o : Options) : List String → Options
  | arg :: value :: rest =>
    if arg = "-c" ∨ arg = "--cols" then
      parse { o with columns := (extent? value).or o.columns } rest
    else if arg = "-r" ∨ arg = "--rows" then
      parse { o with rows := (extent? value).or o.rows } rest
    else if arg = "-n" ∨ arg = "--chunk" then
      parse { o with chunk := (number? (2 ^ 64) value).getD 0 } rest
    else if arg = "-f" ∨ arg = "--file" then parse { o with file := some value } rest
    else parse (o.flag arg) (value :: rest)
  | [arg] => o.flag arg
  | [] => o

end RemoteScreen.Replay
