import RemoteScreen.Proofs.Json.Fields
import RemoteScreen.Settings.Form

/-! Settings of which some fields are given. An object that sets these fields and no others is read as
the defaults with the fields replaced, in whatever order its members stand and whatever other members
stand between them. All fields together give whole settings back. -/

namespace RemoteScreen

open Json

variable {j : Json}

/-! ### The screen -/

/-- Some fields of a screen's settings. -/
structure ScreenSettings.Part where
  columns : Option UInt16 := none
  rows : Option UInt16 := none
  foreground : Option Color := none
  background : Option Color := none

namespace ScreenSettings

variable {p : Part}

/-- Settings with the given fields replaced. -/
def Part.over (p : Part) (s : ScreenSettings) : ScreenSettings where
  columns := p.columns.getD s.columns
  rows := p.rows.getD s.rows
  foreground := p.foreground.getD s.foreground
  background := p.background.getD s.background

/-- The names of the fields in a document. -/
def names : List String :=
  ["columns", "rows", "foreground", "background"]

/-- The members set the given fields and no others. -/
structure Part.SetBy (p : Part) (members : List (Text × Json)) : Prop where
  distinct : Distinct names members
  columns : Sets Reads members "columns" p.columns
  rows : Sets Reads members "rows" p.rows
  foreground : Sets Reads members "foreground" p.foreground
  background : Sets Reads members "background" p.background

/-- An object whose members set the given fields and no others. -/
def Writes (j : Json) (p : Part) : Prop :=
  ∃ members, j = .object members ∧ p.SetBy members

theorem ofJson?_of_writes (h : Writes j p) : ofJson? j = some (p.over {}) := by
  obtain ⟨members, rfl, h⟩ := h
  have hd := h.distinct
  refine Option.bind_eq_some_iff.mpr ⟨_, fields?_object hd, ?_⟩
  refine Option.bind_eq_some_iff.mpr ⟨_, hd.optional?_reads (by decide) h.columns _, ?_⟩
  refine Option.bind_eq_some_iff.mpr ⟨_, hd.optional?_reads (by decide) h.rows _, ?_⟩
  refine Option.bind_eq_some_iff.mpr ⟨_, hd.optional?_reads (by decide) h.foreground _, ?_⟩
  exact Option.bind_eq_some_iff.mpr ⟨_, hd.optional?_reads (by decide) h.background _, rfl⟩

/-- The fields in the order of a document, each with its form if it is given. -/
def Part.entries (p : Part) : List (String × Option Json) :=
  [("columns", p.columns.map toJson), ("rows", p.rows.map toJson),
    ("foreground", p.foreground.map toJson), ("background", p.background.map toJson)]

/-- The record of the given fields. -/
def Part.form (p : Part) : Json :=
  record (present p.entries)

theorem Part.writes_form (p : Part) : Writes p.form p := by
  have hnames : (p.entries.map (·.1)).Nodup := (by decide : names.Nodup)
  exact ⟨_, rfl, {
    distinct := distinct_present hnames
    columns := sets_present hnames (by simp [entries]) LawfulForm.ofJson?_toJson
    rows := sets_present hnames (by simp [entries]) LawfulForm.ofJson?_toJson
    foreground := sets_present hnames (by simp [entries]) LawfulForm.ofJson?_toJson
    background := sets_present hnames (by simp [entries]) LawfulForm.ofJson?_toJson }⟩

theorem Part.plain_form (p : Part) : Plain p.form := by
  refine plain_present fun e he v hv => ?_
  simp only [entries, List.mem_cons, List.not_mem_nil, or_false] at he
  rcases he with rfl | rfl | rfl | rfl <;> exact plain_of_map LawfulForm.plain hv

/-- All fields of settings. -/
def whole (s : ScreenSettings) : Part :=
  ⟨some s.columns, some s.rows, some s.foreground, some s.background⟩

instance : LawfulForm ScreenSettings where
  ofJson?_toJson s := ofJson?_of_writes s.whole.writes_form
  plain s := s.whole.plain_form

end ScreenSettings

/-! ### The connection -/

/-- Some fields of a connection's settings. -/
structure ConnectionSettings.Part where
  outboundCapacity : Option UInt64 := none
  minColumns : Option UInt16 := none
  minRows : Option UInt16 := none
  maxColumns : Option UInt16 := none
  maxRows : Option UInt16 := none
  maxSubnegotiation : Option UInt64 := none
  negotiateOnCreate : Option Bool := none

namespace ConnectionSettings

variable {p : Part}

/-- Settings with the given fields replaced. -/
def Part.over (p : Part) (s : ConnectionSettings) : ConnectionSettings where
  outboundCapacity := p.outboundCapacity.getD s.outboundCapacity
  minColumns := p.minColumns.getD s.minColumns
  minRows := p.minRows.getD s.minRows
  maxColumns := p.maxColumns.getD s.maxColumns
  maxRows := p.maxRows.getD s.maxRows
  maxSubnegotiation := p.maxSubnegotiation.getD s.maxSubnegotiation
  negotiateOnCreate := p.negotiateOnCreate.getD s.negotiateOnCreate

/-- The names of the fields in a document. -/
def names : List String :=
  ["outbound_capacity", "min_columns", "min_rows", "max_columns", "max_rows", "max_subnegotiation",
    "negotiate_on_create"]

/-- The members set the given fields and no others. -/
structure Part.SetBy (p : Part) (members : List (Text × Json)) : Prop where
  distinct : Distinct names members
  outboundCapacity : Sets Reads members "outbound_capacity" p.outboundCapacity
  minColumns : Sets Reads members "min_columns" p.minColumns
  minRows : Sets Reads members "min_rows" p.minRows
  maxColumns : Sets Reads members "max_columns" p.maxColumns
  maxRows : Sets Reads members "max_rows" p.maxRows
  maxSubnegotiation : Sets Reads members "max_subnegotiation" p.maxSubnegotiation
  negotiateOnCreate : Sets Reads members "negotiate_on_create" p.negotiateOnCreate

/-- An object whose members set the given fields and no others. -/
def Writes (j : Json) (p : Part) : Prop :=
  ∃ members, j = .object members ∧ p.SetBy members

theorem ofJson?_of_writes (h : Writes j p) : ofJson? j = some (p.over {}) := by
  obtain ⟨members, rfl, h⟩ := h
  have hd := h.distinct
  refine Option.bind_eq_some_iff.mpr ⟨_, fields?_object hd, ?_⟩
  refine Option.bind_eq_some_iff.mpr ⟨_, hd.optional?_reads (by decide) h.outboundCapacity _, ?_⟩
  refine Option.bind_eq_some_iff.mpr ⟨_, hd.optional?_reads (by decide) h.minColumns _, ?_⟩
  refine Option.bind_eq_some_iff.mpr ⟨_, hd.optional?_reads (by decide) h.minRows _, ?_⟩
  refine Option.bind_eq_some_iff.mpr ⟨_, hd.optional?_reads (by decide) h.maxColumns _, ?_⟩
  refine Option.bind_eq_some_iff.mpr ⟨_, hd.optional?_reads (by decide) h.maxRows _, ?_⟩
  refine Option.bind_eq_some_iff.mpr ⟨_, hd.optional?_reads (by decide) h.maxSubnegotiation _, ?_⟩
  exact Option.bind_eq_some_iff.mpr
    ⟨_, hd.optional?_reads (by decide) h.negotiateOnCreate _, rfl⟩

/-- The fields in the order of a document, each with its form if it is given. -/
def Part.entries (p : Part) : List (String × Option Json) :=
  [("outbound_capacity", p.outboundCapacity.map toJson), ("min_columns", p.minColumns.map toJson),
    ("min_rows", p.minRows.map toJson), ("max_columns", p.maxColumns.map toJson),
    ("max_rows", p.maxRows.map toJson), ("max_subnegotiation", p.maxSubnegotiation.map toJson),
    ("negotiate_on_create", p.negotiateOnCreate.map toJson)]

/-- The record of the given fields. -/
def Part.form (p : Part) : Json :=
  record (present p.entries)

theorem Part.writes_form (p : Part) : Writes p.form p := by
  have hnames : (p.entries.map (·.1)).Nodup := (by decide : names.Nodup)
  exact ⟨_, rfl, {
    distinct := distinct_present hnames
    outboundCapacity := sets_present hnames (by simp [entries]) LawfulForm.ofJson?_toJson
    minColumns := sets_present hnames (by simp [entries]) LawfulForm.ofJson?_toJson
    minRows := sets_present hnames (by simp [entries]) LawfulForm.ofJson?_toJson
    maxColumns := sets_present hnames (by simp [entries]) LawfulForm.ofJson?_toJson
    maxRows := sets_present hnames (by simp [entries]) LawfulForm.ofJson?_toJson
    maxSubnegotiation := sets_present hnames (by simp [entries]) LawfulForm.ofJson?_toJson
    negotiateOnCreate := sets_present hnames (by simp [entries]) LawfulForm.ofJson?_toJson }⟩

theorem Part.plain_form (p : Part) : Plain p.form := by
  refine plain_present fun e he v hv => ?_
  simp only [entries, List.mem_cons, List.not_mem_nil, or_false] at he
  rcases he with rfl | rfl | rfl | rfl | rfl | rfl | rfl <;>
    exact plain_of_map LawfulForm.plain hv

/-- All fields of settings. -/
def whole (s : ConnectionSettings) : Part :=
  ⟨some s.outboundCapacity, some s.minColumns, some s.minRows, some s.maxColumns, some s.maxRows,
    some s.maxSubnegotiation, some s.negotiateOnCreate⟩

instance : LawfulForm ConnectionSettings where
  ofJson?_toJson s := ofJson?_of_writes s.whole.writes_form
  plain s := s.whole.plain_form

end ConnectionSettings

/-! ### Both -/

/-- Some fields of settings; a part that is not given leaves out all of its fields. -/
structure Settings.Part where
  screen : Option ScreenSettings.Part := none
  connection : Option ConnectionSettings.Part := none

namespace Settings

variable {p : Part}

/-- Settings with the given fields of either part replaced. -/
def Part.over (p : Part) (s : Settings) : Settings where
  screen := (p.screen.map (·.over s.screen)).getD s.screen
  connection := (p.connection.map (·.over s.connection)).getD s.connection

/-- The names of the two parts in a document. -/
def names : List String :=
  ["canvas", "terminal"]

/-- The members set the given fields of either part and no others. -/
structure Part.SetBy (p : Part) (members : List (Text × Json)) : Prop where
  distinct : Distinct names members
  screen : Sets ScreenSettings.Writes members "canvas" p.screen
  connection : Sets ConnectionSettings.Writes members "terminal" p.connection

/-- An object whose members set the given fields of either part and no others. -/
def Writes (j : Json) (p : Part) : Prop :=
  ∃ members, j = .object members ∧ p.SetBy members

theorem ofJson?_of_writes (h : Writes j p) : ofJson? j = some (p.over {}) := by
  obtain ⟨members, rfl, h⟩ := h
  have hd := h.distinct
  have hscreen := hd.optional? (by decide) h.screen
    (fun _ _ => ScreenSettings.ofJson?_of_writes) {}
  have hconnection := hd.optional? (by decide) h.connection
    (fun _ _ => ConnectionSettings.ofJson?_of_writes) {}
  refine Option.bind_eq_some_iff.mpr ⟨_, fields?_object hd, ?_⟩
  refine Option.bind_eq_some_iff.mpr ⟨_, hscreen, ?_⟩
  exact Option.bind_eq_some_iff.mpr ⟨_, hconnection, rfl⟩

/-- The two parts in the order of a document, each with its record if it is given. -/
def Part.entries (p : Part) : List (String × Option Json) :=
  [("canvas", p.screen.map (·.form)), ("terminal", p.connection.map (·.form))]

/-- The record of the given parts. -/
def Part.form (p : Part) : Json :=
  record (present p.entries)

theorem Part.writes_form (p : Part) : Writes p.form p := by
  have hnames : (p.entries.map (·.1)).Nodup := (by decide : names.Nodup)
  exact ⟨_, rfl, {
    distinct := distinct_present hnames
    screen := sets_present hnames List.mem_cons_self ScreenSettings.Part.writes_form
    connection := sets_present hnames (List.mem_cons_of_mem _ List.mem_cons_self)
      ConnectionSettings.Part.writes_form }⟩

theorem Part.plain_form (p : Part) : Plain p.form := by
  refine plain_present fun e he v hv => ?_
  simp only [entries, List.mem_cons, List.not_mem_nil, or_false] at he
  rcases he with rfl | rfl
  · exact plain_of_map ScreenSettings.Part.plain_form hv
  · exact plain_of_map ConnectionSettings.Part.plain_form hv

/-- All fields of both parts. -/
def whole (s : Settings) : Part :=
  ⟨some s.screen.whole, some s.connection.whole⟩

instance : LawfulForm Settings where
  ofJson?_toJson s := ofJson?_of_writes s.whole.writes_form
  plain s := s.whole.plain_form

end Settings
end RemoteScreen
