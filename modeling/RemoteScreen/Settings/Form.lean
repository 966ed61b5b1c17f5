import RemoteScreen.Cell.Form
import RemoteScreen.Settings

/-!
The JSON form of settings, and loading them from files. Fields that are missing take their defaults.
-/

namespace RemoteScreen

open Json

instance : JsonForm ScreenSettings where
  toJson s :=
    record [("columns", toJson s.columns), ("rows", toJson s.rows),
      ("foreground", toJson s.foreground), ("background", toJson s.background)]
  ofJson? j := do
    let d : ScreenSettings := {}
    let [columns, rows, foreground, background] ←
      fields? ["columns", "rows", "foreground", "background"] j | none
    return {
      columns := ← optional? d.columns columns
      rows := ← optional? d.rows rows
      foreground := ← optional? d.foreground foreground
      background := ← optional? d.background background
    }

instance : JsonForm ConnectionSettings where
  toJson s :=
    record [("outbound_capacity", toJson s.outboundCapacity), ("min_columns", toJson s.minColumns),
      ("min_rows", toJson s.minRows), ("max_columns", toJson s.maxColumns),
      ("max_rows", toJson s.maxRows), ("max_subnegotiation", toJson s.maxSubnegotiation),
      ("negotiate_on_create", toJson s.negotiateOnCreate)]
  ofJson? j := do
    let d : ConnectionSettings := {}
    let [outboundCapacity, minColumns, minRows, maxColumns, maxRows, maxSubnegotiation,
        negotiateOnCreate] ←
      fields? ["outbound_capacity", "min_columns", "min_rows", "max_columns", "max_rows",
        "max_subnegotiation", "negotiate_on_create"] j | none
    return {
      outboundCapacity := ← optional? d.outboundCapacity outboundCapacity
      minColumns := ← optional? d.minColumns minColumns
      minRows := ← optional? d.minRows minRows
      maxColumns := ← optional? d.maxColumns maxColumns
      maxRows := ← optional? d.maxRows maxRows
      maxSubnegotiation := ← optional? d.maxSubnegotiation maxSubnegotiation
      negotiateOnCreate := ← optional? d.negotiateOnCreate negotiateOnCreate
    }

instance : JsonForm Settings where
  toJson s := record [("canvas", toJson s.screen), ("terminal", toJson s.connection)]
  ofJson? j := do
    let [screen, connection] ← fields? ["canvas", "terminal"] j | none
    return { screen := ← optional? {} screen, connection := ← optional? {} connection }

namespace Settings

/-- Why a file of settings cannot be used. -/
inductive LoadError where
  /-- There is no file, or it is no text. -/
  | unreadable
  /-- The document is no JSON form of settings. -/
  | malformed
  | invalid (i : Invalidity)
  deriving DecidableEq

/-- What a file holds; `none` stands for a file that cannot be read. -/
abbrev File := Option ByteArray

/-- The document that settings are saved as. -/
def toDocument (s : Settings) : String :=
  (toJson s).pretty

/-- The settings of a document, which need not be fit for use. -/
def read? (document : String) : Option Settings :=
  (Json.read? document).bind ofJson?

/-- The settings of a document, if they can be used. -/
def ofDocument (document : String) : Except LoadError Settings :=
  match read? document with
  | none => .error .malformed
  | some s =>
    match s.validate with
    | .ok () => .ok s
    | .error i => .error (.invalid i)

/-- The settings of a file, if they can be used. -/
def load (file : File) : Except LoadError Settings :=
  match file.bind String.fromUTF8? with
  | some document => ofDocument document
  | none => .error .unreadable

/-- The settings of a file, or the defaults if it cannot be used. -/
def loadOrDefault (file : File) : Settings :=
  match load file with
  | .ok s => s
  | .error _ => {}

end Settings
end RemoteScreen
