import RemoteScreen.Cell.Description
import RemoteScreen.Connection
import RemoteScreen.Keyboard.Form
import RemoteScreen.Main
import RemoteScreen.Replay.Report
import RemoteScreen.Screen.Action
import RemoteScreen.SessionId
import RemoteScreen.Telnet.Form
import RemoteScreen.Proofs.Cell
import RemoteScreen.Proofs.Display.Basic
import RemoteScreen.Proofs.Display.Reading
import RemoteScreen.Proofs.Screen.Calls
import RemoteScreen.Proofs.Screen.Pass
import RemoteScreen.Proofs.Screen.WellFormed
import RemoteScreen.Proofs.Screen.Display
import RemoteScreen.Proofs.Connection.Calls
import RemoteScreen.Proofs.Connection.Display
import RemoteScreen.Proofs.Connection.Framing
import RemoteScreen.Proofs.Screen.Drain
import RemoteScreen.Proofs.Screen.Clean
import RemoteScreen.Proofs.Screen.Progress
import RemoteScreen.Proofs.Screen.Style
import RemoteScreen.Proofs.Screen.Buffer
import RemoteScreen.Proofs.Connection.Drain
import RemoteScreen.Proofs.Connection.Progress
import RemoteScreen.Proofs.Telnet.Calls
import RemoteScreen.Proofs.Telnet.Reads
import RemoteScreen.Proofs.Telnet.Limit
import RemoteScreen.Proofs.Telnet.Grammar
import RemoteScreen.Proofs.Telnet.Wire
import RemoteScreen.Proofs.Connection.WindowSize
import RemoteScreen.Proofs.Cell.Canonical
import RemoteScreen.Proofs.Screen.Actions
import RemoteScreen.Proofs.Screen.Due
import RemoteScreen.Proofs.Connection.Rest
import RemoteScreen.Proofs.Screen.Canonical
import RemoteScreen.Proofs.Screen.Sequences
import RemoteScreen.Proofs.Screen.Atomic
import RemoteScreen.Proofs.Screen.Drawn
import RemoteScreen.Proofs.Screen.Blocks
import RemoteScreen.Proofs.Screen.Borders
import RemoteScreen.Proofs.Line
import RemoteScreen.Proofs.Screen.Lines
import RemoteScreen.Proofs.Screen.Resize
import RemoteScreen.Proofs.Connection.Queue
import RemoteScreen.Proofs.Connection.Commands
import RemoteScreen.Proofs.Connection.Input
import RemoteScreen.Proofs.Telnet.Registers
import RemoteScreen.Proofs.CodePoint.Reading
import RemoteScreen.Proofs.CodePoint.RoundTrip
import RemoteScreen.Proofs.Json.Printing
import RemoteScreen.Proofs.Snapshot.Packed
import RemoteScreen.Proofs.Json.Forms
import RemoteScreen.Proofs.Snapshot.Documents
import RemoteScreen.Proofs.Screen.Restore
import RemoteScreen.Proofs.Snapshot.Text
import RemoteScreen.Proofs.Keyboard
import RemoteScreen.Proofs.Cell.Fields
import RemoteScreen.Proofs.Connection.Opening
import RemoteScreen.Proofs.Json.Fields
import RemoteScreen.Proofs.Settings.Validity
import RemoteScreen.Proofs.Settings.Parts
import RemoteScreen.Proofs.Settings.Loading
import RemoteScreen.Proofs.ControlSequence
import RemoteScreen.Proofs.Screen.Whole
