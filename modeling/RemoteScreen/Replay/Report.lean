import RemoteScreen.Chunks
import RemoteScreen.Connection
import RemoteScreen.Replay.Options
import RemoteScreen.Replay.SystemError
import RemoteScreen.Settings.Form
import RemoteScreen.Snapshot.Form

/-!
The replay tool: feeds captured bytes of a client to a connection and reports what became of it.
Reading files is left to the caller.
-/

namespace RemoteScreen.Replay

/-- What the tool leaves behind. -/
structure Report where
  code : UInt8
  output : String
  errorOutput : String
  deriving DecidableEq

/-- The report of a tool that has done what it was asked for. -/
def Report.success (output : String) : Report := ⟨0, output, ""⟩

/-- The report of a failure, which `error` describes. -/
def Report.failure (error : String) : Report := ⟨1, "", "Error" ++ error ++ "\n"⟩

/-- A defect within the tool stops it. -/
def Report.defect (f : Fault) : Report := ⟨101, "", f.message ++ "\n"⟩

/-- The explanation of the options. -/
def helpLines : List String :=
  ["Telnet Canvas Headless Runner",
    "",
    "Usage: telnet-canvas-headless [OPTIONS] [INPUT_FILE]",
    "",
    "Options:",
    "  -c, --cols <N>     Initial canvas width (default: 80)",
    "  -r, --rows <N>     Initial canvas height (default: 25)",
    "  -n, --chunk <N>    Feed the input in reads of N bytes (default: all at once)",
    "  -f, --file <PATH>  Read input from file",
    "  -j, --json         Print the canvas snapshot as JSON",
    "  -t, --text         Print the canvas glyphs as text",
    "  -h, --help         Show this help message",
    "",
    "Without -j or -t, prints the canvas size and keyboard state.",
    "If no input file is specified, reads from stdin.",
    "",
    "Examples:",
    "  printf '\\xff\\xfa\\x1f\\x00\\x78\\x00\\x28\\xff\\xf0wasd' | telnet-canvas-headless",
    "  telnet-canvas-headless --chunk 1 capture.bin"]

/-- Lines of text, each ended by a line break. -/
def unlines (lines : List String) : String :=
  "".intercalate (lines.map (· ++ "\n"))

/-- The word for a named key in summaries. -/
def keyWord : Telnet.NamedKey → String
  | .space => "SPACE"
  | .enter => "ENTER"
  | .escape => "ESC"
  | .up => "UP"
  | .down => "DOWN"
  | .left => "LEFT"
  | .right => "RIGHT"
  | .tab => "TAB"
  | .backspace => "BACKSPACE"

/-- The named keys that were pressed, in one line. -/
def describeKeys (k : Keyboard) : String :=
  match Telnet.NamedKey.all.filter k.has with
  | [] => "KeyFlags(0x0)"
  | keys => "KeyFlags(" ++ " | ".intercalate (keys.map keyWord) ++ ")"

/-- The four directions, each with whether it is held. -/
def describeDirections (d : Directions) : String :=
  let word (b : Bool) : String := if b then "true" else "false"
  "Directional \x7b up: " ++ word d.up ++ ", down: " ++ word d.down ++ ", left: " ++ word d.left ++
    ", right: " ++ word d.right ++ " \x7d"

/-- The state of a connection in lines. -/
def summary (c : Connection) : String :=
  let digits := c.keyboard.pressedDigits.map toString
  unlines [
    s!"Canvas: {c.screen.width}x{c.screen.height}",
    "NAWS: " ++ (if c.reportsWindowSize then "yes" else "no"),
    "Letters: " ++ String.ofList c.keyboard.pressedLetters,
    "Digits: " ++ "".intercalate digits,
    "Keys: " ++ describeKeys c.keyboard,
    "Directional: " ++ describeDirections (c.keyboard.directions true)]

/-- What a format prints of a connection. -/
def render (format : Format) (c : Connection) : Except Fault String :=
  match format with
  | .summary => .ok (summary c)
  | .text => (Snapshot.capture c.screen).toText
  | .json => .ok ((Snapshot.capture c.screen).toDocument ++ "\n")

/-- The settings with the overrides of the command line. -/
def Options.override (o : Options) (s : Settings) : Settings :=
  { s with screen := { s.screen with
      columns := o.columns.getD s.screen.columns
      rows := o.rows.getD s.screen.rows } }

/-- Feeds the input to a new connection, in reads of `chunk` bytes. -/
def replay (chunk : Nat) (s : Settings) (input : List UInt8) : Except Fault Connection := do
  let c ← Connection.ofSettings s
  let chunk := if chunk = 0 then input.length else chunk
  return (chunks chunk input).foldl Connection.parse c

/-- What has to be read before the input can be replayed. -/
inductive Plan where
  /-- Nothing: the tool is done. -/
  | done (r : Report)
  /-- The input, from a file or from standard input. -/
  | input (file : Option String) (s : Settings)

/-- What is left to do. Neither help nor settings that cannot be used need any input. -/
def plan (o : Options) (s : Settings) : Plan :=
  let s := o.override s
  if o.help then .done (.success (unlines helpLines))
  else match s.validate with
    | .error i => .done (.failure (": " ++ i.message))
    | .ok () => .input o.file s

/-- The report on input that has been read. -/
def report (o : Options) (s : Settings) (input : List UInt8) : Report :=
  match replay o.chunk s input >>= render o.format with
  | .ok output => .success output
  | .error f => .defect f

/-- The report on input that could not be read. -/
def unreadable (file : Option String) (e : FileError) : Report :=
  match file with
  | some path => .failure s!" reading file '{path}': {e.message}"
  | none => .failure s!" reading stdin: {e.message}"

/-- Runs the tool. `read` gives the contents of a file, or of standard input. -/
def run {m : Type → Type} [Monad m] (arguments : List String) (settings : Settings.File)
    (read : Option String → m (Except FileError (List UInt8))) : m Report := do
  let o := Options.parse {} arguments
  match plan o (Settings.loadOrDefault settings) with
  | .done r => return r
  | .input file s =>
    match ← read file with
    | .ok input => return report o s input
    | .error e => return unreadable file e

end RemoteScreen.Replay
