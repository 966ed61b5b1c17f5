import RemoteScreen.Replay.Report

/-!
The command line of the replay tool: finds the user's settings, reads the input and prints the
report.
-/

namespace RemoteScreen.Replay

/-- The number of a failure. -/
def errorNumber? : IO.Error → Option UInt32
  | .alreadyExists _ n _ | .interrupted _ n _ | .noFileOrDirectory _ n _ | .invalidArgument _ n _
  | .permissionDenied _ n _ | .resourceExhausted _ n _ | .inappropriateType _ n _
  | .noSuchThing _ n _ => some n
  | .otherError n _ | .resourceBusy n _ | .resourceVanished n _ | .unsupportedOperation n _
  | .hardwareFault n _ | .unsatisfiedConstraints n _ | .illegalOperation n _ | .protocolError n _
  | .timeExpired n _ => some n
  | .unexpectedEof | .userError _ => none

/-- Why reading has failed. The number of a failure may be given with a minus sign. -/
def FileError.ofIOError (e : IO.Error) : FileError :=
  let cause? := (errorNumber? e).bind fun n => SystemError.ofCode? (min n (0 - n)).toNat
  match cause? with
  | some cause => .system cause
  | none => .other e.toString

/-- Reads a stream to its end. -/
partial def readAll (stream : IO.FS.Stream) (sofar : ByteArray) : IO ByteArray := do
  let piece ← stream.read 65536
  if piece.isEmpty then return sofar else readAll stream (sofar ++ piece)

/-- The contents of a file, or of standard input. -/
def readInput (file : Option String) : IO (Except FileError (List UInt8)) := do
  try
    let bytes ← match file with
      | some path => IO.FS.readBinFile path
      | none => readAll (← IO.getStdin) .empty
    return .ok bytes.toList
  catch e => return .error (.ofIOError e)

/-- The user's file of settings, if there is one. -/
def readSettings : IO Settings.File := do
  let some home ← IO.getEnv "HOME" | return none
  try
    return some (← IO.FS.readBinFile (home ++ "/.config/telnet-canvas/config.json"))
  catch _ => return none

end RemoteScreen.Replay

open RemoteScreen.Replay in
/-- Runs the tool with the settings of the user, and prints its report. -/
def main (arguments : List String) : IO UInt32 := do
  let r ← run arguments (← readSettings) readInput
  IO.print r.output
  IO.eprint r.errorOutput
  return r.code.toUInt32
