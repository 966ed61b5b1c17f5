/-!
Why the system refuses to give the contents of a file: a cause has a number and a text, and a
message shows both.
-/

namespace RemoteScreen.Replay

/-- A failure that the system reports on opening or reading a file. -/
inductive SystemError where
  | notPermitted
  | notFound
  /-- The file is there, but its contents cannot be had. -/
  | ioFault
  | noDevice
  | wouldBlock
  | permissionDenied
  | busy
  | noDriver
  /-- A name that the path goes on from is no directory. -/
  | notDirectory
  | isDirectory
  /-- The file is of a kind that cannot be read. -/
  | invalidArgument
  /-- The path, or a name in it, is too long. -/
  | nameTooLong
  | tooManyLinks
  deriving DecidableEq

namespace SystemError

/-- Every failure. -/
def all : List SystemError :=
  [notPermitted, notFound, ioFault, noDevice, wouldBlock, permissionDenied, busy, noDriver,
    notDirectory, isDirectory, invalidArgument, nameTooLong, tooManyLinks]

/-- The number of a failure. -/
def code : SystemError → Nat
  | notPermitted => 1
  | notFound => 2
  | ioFault => 5
  | noDevice => 6
  | wouldBlock => 11
  | permissionDenied => 13
  | busy => 16
  | noDriver => 19
  | notDirectory => 20
  | isDirectory => 21
  | invalidArgument => 22
  | nameTooLong => 36
  | tooManyLinks => 40

/-- The text of a failure. -/
def text : SystemError → String
  | notPermitted => "Operation not permitted"
  | notFound => "No such file or directory"
  | ioFault => "Input/output error"
  | noDevice => "No such device or address"
  | wouldBlock => "Resource temporarily unavailable"
  | permissionDenied => "Permission denied"
  | busy => "Device or resource busy"
  | noDriver => "No such device"
  | notDirectory => "Not a directory"
  | isDirectory => "Is a directory"
  | invalidArgument => "Invalid argument"
  | nameTooLong => "File name too long"
  | tooManyLinks => "Too many levels of symbolic links"

/-- The text of a failure, with its number. -/
def message (e : SystemError) : String :=
  s!"{e.text} (os error {e.code})"

/-- The failure of a number. -/
def ofCode? (n : Nat) : Option SystemError :=
  all.find? (·.code == n)

@[simp] theorem ofCode?_code (e : SystemError) : ofCode? e.code = some e := by
  cases e <;> rfl

end SystemError

/-- Why a file could not be read. -/
inductive FileError where
  | system (e : SystemError)
  /-- Another failure, in words of its own. -/
  | other (text : String)
  deriving DecidableEq

/-- The text of a failure to read a file. -/
def FileError.message : FileError → String
  | system e => e.message
  | other text => text

end RemoteScreen.Replay
