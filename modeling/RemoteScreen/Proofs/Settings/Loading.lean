import RemoteScreen.Proofs.Settings.Parts
import RemoteScreen.Proofs.Settings.Validity

/-! Settings from files. A file whose document writes settings gives exactly these, or the first check
that refuses them; so settings survive saving, and a document that sets some fields leaves the others at
their defaults. Without a home directory, or if there is no file to use in it, the defaults are used,
which pass the checks themselves. -/

namespace RemoteScreen.Settings

open Json

variable {s : Settings} {p : Part} {j : Json} {document : String} {file : File}

/-! ### Documents -/

theorem text_of_document (document : String) :
    String.fromUTF8? document.toUTF8 = some document := by
  simp only [String.fromUTF8?]
  split
  next => rfl
  next hinvalid => exact absurd document.isValidUTF8 hinvalid

/-- The file of a document. -/
def fileOf (document : String) : File :=
  some document.toUTF8

theorem load_fileOf (document : String) : load (fileOf document) = ofDocument document := by
  rw [load, fileOf, Option.bind_some, text_of_document]

/-- A file gives the settings if they can be used, and the first check that refuses them otherwise. -/
def Gives (file : File) (s : Settings) : Prop :=
  (s.validate = .ok () → load file = .ok s) ∧
  (s.validate ≠ .ok () → ∃ i, s.FirstFailure i ∧ load file = .error (.invalid i))

theorem gives_of_read? (h : read? document = some s) : Gives (fileOf document) s := by
  rw [Gives, load_fileOf]
  refine ⟨fun hvalid => ?_, fun hinvalid => ?_⟩
  · simp only [ofDocument, h, hvalid]
  · cases hi : s.validate with
    | ok => exact absurd hi hinvalid
    | error i =>
      refine ⟨i, validate_eq_error_iff.mp hi, ?_⟩
      simp only [ofDocument, h, hi]

theorem read?_toDocument (s : Settings) : read? s.toDocument = some s := by
  rw [read?, toDocument, read?_pretty (LawfulForm.plain s), Option.bind_some,
    LawfulForm.ofJson?_toJson]

theorem read?_of_writes (hread : Json.read? document = some j) (h : Writes j p) :
    read? document = some (p.over {}) := by
  rw [read?, hread, Option.bind_some, ofJson?_of_writes h]

theorem validate_of_load (h : load file = .ok s) : s.validate = .ok () := by
  rw [load] at h
  split at h
  next document _ =>
    rw [ofDocument] at h
    split at h
    next => cases h
    next t _ =>
      cases ht : t.validate with
      | ok =>
        rw [ht] at h
        cases h
        exact ht
      | error i =>
        rw [ht] at h
        cases h
  next => cases h

/-! ### The home directory -/

/-- What loading depends on: the variable for the home directory, if it is set to a text, and the
entries of the file system by their paths. -/
structure Surroundings where
  home : Option String
  entry? : String → Option File

/-- A name inside a directory. -/
def join (directory name : String) : String :=
  if directory = "" ∨ directory.endsWith "/" then directory ++ name else directory ++ "/" ++ name

/-- The path of the file of settings. -/
def pathIn (home : String) : String :=
  join (join (join home ".config") "telnet-canvas") "config.json"

namespace Surroundings

/-- What is read at a path. -/
def fileAt (w : Surroundings) (path : String) : File :=
  (w.entry? path).join

/-- The settings of the file in the home directory. Only an entry that exists is read. -/
def settings (w : Surroundings) : Settings :=
  match w.home with
  | none => {}
  | some home =>
    match w.entry? (pathIn home) with
    | none => {}
    | some file => loadOrDefault file

/-- A file that is not there is one that cannot be read. -/
theorem settings_eq (w : Surroundings) :
    w.settings = loadOrDefault (w.home.bind fun home => w.fileAt (pathIn home)) := by
  rw [settings]
  cases w.home with
  | none => rfl
  | some home =>
    simp only [Option.bind_some, fileAt]
    cases w.entry? (pathIn home) with
    | none => rfl
    | some file => rfl

end Surroundings

theorem loadOrDefault_of_load (h : load file = .ok s) : loadOrDefault file = s := by
  rw [loadOrDefault, h]

theorem loadOrDefault_of_no_load (h : ∀ s, load file ≠ .ok s) : loadOrDefault file = {} := by
  rw [loadOrDefault]
  split
  next s hs => exact absurd hs (h s)
  next => rfl

theorem validate_loadOrDefault (file : File) : (loadOrDefault file).validate = .ok () := by
  rw [loadOrDefault]
  split
  next s hs => exact validate_of_load hs
  next => exact validate_default

/-- Settings survive saving, or are refused with the first check that fails. In all surroundings, whatever
the files hold, the settings that are used can be used: those that the file in the home directory loads
as, or the defaults. A document that sets some fields gives the defaults with exactly these replaced, and
such a document there is for all fields and values. -/
theorem load_saved_or_default :
    (∀ s : Settings, Gives (fileOf s.toDocument) s) ∧
    (∀ w : Surroundings, w.settings.validate = .ok () ∧
      (∀ home s, w.home = some home → load (w.fileAt (pathIn home)) = .ok s → w.settings = s) ∧
      ((∀ home s, w.home = some home → load (w.fileAt (pathIn home)) ≠ .ok s) → w.settings = {})) ∧
    ∀ p : Part,
      (∀ (j : Json) (document : String), Writes j p → Json.read? document = some j →
        Gives (fileOf document) (p.over {})) ∧
      Writes p.form p ∧ Json.read? p.form.compact = some p.form ∧
      Json.read? p.form.pretty = some p.form := by
  refine ⟨fun s => gives_of_read? (read?_toDocument s), fun w => ?_, fun p => ?_⟩
  · rw [w.settings_eq]
    refine ⟨validate_loadOrDefault _, fun home s hhome hload => ?_, fun hnone => ?_⟩
    · rw [hhome, Option.bind_some, loadOrDefault_of_load hload]
    · cases hhome : w.home with
      | none => rfl
      | some home => exact loadOrDefault_of_no_load fun s => hnone home s hhome
  · refine ⟨fun j document hj hread => gives_of_read? (read?_of_writes hread hj), p.writes_form, ?_⟩
    exact ⟨read?_compact p.plain_form, read?_pretty p.plain_form⟩

/-- The settings of a green screen whose clients may have windows of ten rows; settings that two checks
refuse; and a directory in the place of the file. -/
theorem load_saved_or_default_of_green_screen :
    let green : Part := { screen := some { foreground := some .green },
                          connection := some { minRows := some 10 } }
    let document := "\x7b\"canvas\":\x7b\"foreground\":\"green\"\x7d,\"terminal\":\x7b\"min_rows\":10\x7d\x7d"
    let settings : Settings := { screen := { foreground := .green }, connection := { minRows := 10 } }
    let refused : Settings := { screen := { columns := 0 }, connection := { maxColumns := 79 } }
    let home (file : File) : Surroundings :=
      ⟨some "/root", fun path => if path = "/root/.config/telnet-canvas/config.json" then some file else none⟩
    Writes green.form green ∧ Json.read? document = some green.form ∧
    load (fileOf document) = .ok settings ∧ load (fileOf settings.toDocument) = .ok settings ∧
    load (fileOf refused.toDocument) = .error (.invalid (.minimumAboveMaximum 80 25 79 200)) ∧
    (home (fileOf document)).settings = settings ∧ (home none).settings = {} := by
  intro green document settings refused home
  obtain ⟨hsaved, hhome, hpart⟩ := load_saved_or_default
  obtain ⟨hgives, hwrites, hcompact, -⟩ := hpart green
  have hdocument : green.form.compact = document := by decide +kernel
  have hread : Json.read? document = some green.form := hdocument ▸ hcompact
  have hload : load (fileOf document) = .ok settings :=
    (hgives green.form document hwrites hread).1 rfl
  have hrefused : load (fileOf refused.toDocument) =
      .error (.invalid (.minimumAboveMaximum 80 25 79 200)) := by
    obtain ⟨i, hi, herror⟩ := (hsaved refused).2 (by decide)
    cases validate_eq_error_iff.mpr hi
    exact herror
  have hpath : pathIn "/root" = "/root/.config/telnet-canvas/config.json" := by decide +kernel
  have hfile (file : File) : (home file).fileAt (pathIn "/root") = file := by
    rw [Surroundings.fileAt, hpath]
    rfl
  refine ⟨hwrites, hread, hload, (hsaved settings).1 rfl, hrefused, ?_, ?_⟩
  · exact (hhome (home (fileOf document))).2.1 "/root" settings rfl (by rw [hfile, hload])
  · refine (hhome (home none)).2.2 fun directory s hdirectory => ?_
    cases hdirectory
    rw [hfile]
    exact nofun

end RemoteScreen.Settings
