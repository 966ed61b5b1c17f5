import RemoteScreen.Proofs.Connection.Rest
import RemoteScreen.Proofs.Connection.WindowSize

/-! What input does to a connection. Of all that has been decoded, the last word on reports of the
window size says whether the client reports it, and the last report is what the screen has its size
from (`Heard`). Apart from the keyboard nothing else is kept, and none of it is ever sent: a run sends
what it would if each read were only the changes of size that it reports (`run_withSizes`). -/

namespace RemoteScreen

namespace Telnet.Event

variable {α : Type} {f : Event → Option α} {e : Event} {es fs : List Event}

/-- The verb with which an event negotiates reports of the window size. -/
def reporting? : Event → Option Verb
  | .negotiation verb option => if option = Telnet.windowSize then some verb else none
  | _ => none

/-- The window that an event reports. -/
def window? : Event → Option (UInt16 × UInt16)
  | .windowSize width height => some (width, height)
  | _ => none

/-- What the last of some events says, of those that say anything. -/
def last (f : Event → Option α) (events : List Event) : Option α :=
  (events.filterMap f).getLast?

theorem last_append : last f (es ++ fs) = (last f fs).or (last f es) := by
  rw [last, List.filterMap_append, List.getLast?_append]
  rfl

theorem last_singleton : last f [e] = f e := by
  cases h : f e with
  | none => rw [last, List.filterMap_cons_none h]; rfl
  | some a => rw [last, List.filterMap_cons_some h]; rfl

end Telnet.Event

/-- The columns and rows that a screen takes for a window that is reported. -/
def ConnectionSettings.sizeFor (s : ConnectionSettings) (window : UInt16 × UInt16) : Nat × Nat :=
  ((s.clampSize window.1 window.2).1.toNat, (s.clampSize window.1 window.2).2.toNat)

namespace Connection

open Telnet (Decoder Event Verb)

variable {c d u : Connection} {settings : ConnectionSettings} {es fs : List Event} {e : Event}
  {k : Call} {calls : List Call}

/-- The columns and rows of the screen. -/
def size (c : Connection) : Nat × Nat :=
  (c.screen.width, c.screen.height)

/-! ### The last events -/

/-- The connection `d` is what `c` becomes by some events, as far as the size of the screen and the
client's word on it go. -/
structure Heard (c d : Connection) (events : List Event) : Prop where
  settings : d.settings = c.settings
  reports : d.reportsWindowSize =
    ((Event.last Event.reporting? events).map Verb.isPositive).getD c.reportsWindowSize
  size : d.size = ((Event.last Event.window? events).map c.settings.sizeFor).getD c.size

namespace Heard

theorem trans (h : Heard c d es) (h' : Heard d u fs) : Heard c u (es ++ fs) where
  settings := h'.settings.trans h.settings
  reports := by
    rw [h'.reports, h.reports, Event.last_append]
    cases Event.last Event.reporting? fs <;> rfl
  size := by
    rw [h'.size, h.size, h.settings, Event.last_append]
    cases Event.last Event.window? fs <;> rfl

theorem apply (c : Connection) (e : Event) : Heard c (c.apply e) [e] where
  settings := c.apply_settings e
  reports := by
    rw [Event.last_singleton]
    cases e with
    | negotiation verb option =>
      simp only [Connection.apply, Event.reporting?]
      split <;> rfl
    | _ => rfl
  size := by
    rw [Event.last_singleton]
    cases e with
    | windowSize width height =>
      obtain ⟨hwidth, hheight⟩ := c.screen.size_reshape (c.settings.clampSize width height).1.toNat
        (c.settings.clampSize width height).2.toNat
      exact Prod.ext hwidth hheight
    | negotiation verb option =>
      simp only [Connection.apply, Event.window?]
      split <;> rfl
    | _ => rfl

theorem foldl_apply (c : Connection) (events : List Event) :
    Heard c (events.foldl Connection.apply c) events := by
  induction events generalizing c with
  | nil => exact ⟨rfl, rfl, rfl⟩
  | cons e events ih => exact (Heard.apply c e).trans (ih (c.apply e))

end Heard

/-! ### Whole runs -/

/-- The bytes of the reads among some calls. -/
def reads (calls : List Call) : List (List UInt8) :=
  calls.filterMap fun
    | .parse bytes => some bytes
    | _ => none

/-- Whether a call past the connection leaves the screen in its size. -/
def Call.InSize (c : Connection) : Call → Prop
  | .screen k => (c.screen.call k).2.width = c.screen.width ∧
      (c.screen.call k).2.height = c.screen.height
  | _ => True

instance (c : Connection) (k : Call) : Decidable (k.InSize c) :=
  match k with
  | .screen _ => inferInstanceAs (Decidable (_ ∧ _))
  | .submit _ | .parse _ | .clearKeyboard | .flush _ => .isTrue trivial

/-- Whether only the client changes the size of the screen in some calls. -/
def SizedByInput (c : Connection) : List Call → Prop
  | [] => True
  | k :: ks => k.InSize c ∧ (c.call k).2.SizedByInput ks

instance decidableSizedByInput (c : Connection) : (calls : List Call) →
    Decidable (c.SizedByInput calls)
  | [] => .isTrue trivial
  | k :: ks =>
    have := decidableSizedByInput (c.call k).2 ks
    inferInstanceAs (Decidable (_ ∧ _))

theorem heard_submit (c : Connection) (r : Request) :
    Heard c (c.submit r).2 [] ∧ (c.submit r).2.decoder = c.decoder := by
  unfold submit
  split
  · rcases r.screenAfter_eq c.screen with hsame | ⟨-, hrepaint⟩
    · rw [hsame]
      exact ⟨⟨rfl, rfl, rfl⟩, rfl⟩
    · rw [hrepaint]
      exact ⟨⟨rfl, rfl, rfl⟩, rfl⟩
  · exact ⟨⟨rfl, rfl, rfl⟩, rfl⟩

theorem heard_flush (c : Connection) (capacity : Nat) :
    Heard c (c.flush capacity).2 [] ∧ (c.flush capacity).2.decoder = c.decoder := by
  obtain ⟨shown, peer, position, once, tail, hscreen⟩ := c.flush_frame capacity
  have hsize : (c.flush capacity).2.size = c.size := by rw [size, hscreen]; rfl
  rcases c.flush_cases capacity with ⟨-, heq⟩ | ⟨-, -, heq⟩ | ⟨-, o, t, -, heq⟩
  all_goals
    rw [heq] at hsize ⊢
    exact ⟨⟨rfl, rfl, hsize⟩, rfl⟩

theorem heard_parse (c : Connection) (bytes : List UInt8) :
    Heard c (c.parse bytes) (c.decoder.parse bytes).1 ∧
      (c.parse bytes).decoder = (c.decoder.parse bytes).2 := by
  have hparse : c.parse bytes = { (c.decoder.parse bytes).1.foldl apply c with
      decoder := (c.decoder.parse bytes).2 } := foldl_apply_withDecoder c _ _
  have h := Heard.foldl_apply c (c.decoder.parse bytes).1
  rw [hparse]
  exact ⟨⟨h.settings, h.reports, h.size⟩, rfl⟩

theorem reads_cons (k : Call) (ks : List Call) : reads (k :: ks) = reads [k] ++ reads ks :=
  List.filterMap_append (l := [k])

/-- A call other than a read is nothing that a connection hears. -/
theorem heard_call (hk : k.InSize c) :
    Heard c (c.call k).2 (c.decoder.readAll (reads [k])).1 ∧
      (c.call k).2.decoder = (c.decoder.readAll (reads [k])).2 := by
  cases k with
  | screen k => exact ⟨⟨rfl, rfl, Prod.ext hk.1 hk.2⟩, rfl⟩
  | submit r => exact c.heard_submit r
  | parse bytes =>
    rw [show reads [.parse bytes] = [bytes] from rfl, Decoder.readAll_singleton]
    exact c.heard_parse bytes
  | clearKeyboard => exact ⟨⟨rfl, rfl, rfl⟩, rfl⟩
  | flush capacity => exact c.heard_flush capacity

theorem heard_run (hcalls : c.SizedByInput calls) :
    Heard c (c.run calls).2 (c.decoder.readAll (reads calls)).1 ∧
      (c.run calls).2.decoder = (c.decoder.readAll (reads calls)).2 := by
  induction calls generalizing c with
  | nil => exact ⟨⟨rfl, rfl, rfl⟩, rfl⟩
  | cons k ks ih =>
    obtain ⟨hk, hks⟩ := hcalls
    obtain ⟨hfirst, hdecoder⟩ := heard_call hk
    obtain ⟨hrest, hend⟩ := ih hks
    rw [hdecoder] at hrest hend
    rw [run_cons, reads_cons, Decoder.readAll_append]
    exact ⟨hfirst.trans hrest, hend⟩

/-! ### Output -/

/-- The connection `d` differs from `c` in no more than what the client has sent. -/
def Alike (c d : Connection) : Prop :=
  ∃ decoder keyboard reports, d = { c with decoder, keyboard, reportsWindowSize := reports }

/-- The change of size that is made for a window. -/
def resizing (settings : ConnectionSettings) (window : UInt16 × UInt16) : Call :=
  .screen (.perform (.resize (settings.sizeFor window).1 (settings.sizeFor window).2))

/-- Some calls without input, with the changes of size that a decoder reads in its place. -/
def withSizes (settings : ConnectionSettings) (d : Decoder) : List Call → List Call
  | [] => []
  | .parse bytes :: ks =>
    ((d.parse bytes).1.filterMap Event.window?).map (resizing settings) ++
      withSizes settings (d.parse bytes).2 ks
  | .clearKeyboard :: ks => withSizes settings d ks
  | k :: ks => k :: withSizes settings d ks

theorem call_resizing (c : Connection) (window : UInt16 × UInt16) :
    c.call (resizing c.settings window) = ([], c.resizeTo window.1 window.2) :=
  c.call_resize window.1 window.2

namespace Alike

theorem refl (c : Connection) : Alike c c :=
  ⟨_, _, _, rfl⟩

theorem call (h : Alike c d) (hk : ∀ bytes, k ≠ .parse bytes) :
    (c.call k).1 = (d.call k).1 ∧ Alike (c.call k).2 (d.call k).2 := by
  obtain ⟨decoder, keyboard, reports, rfl⟩ := h
  cases k with
  | screen k => exact ⟨rfl, _, _, _, rfl⟩
  | submit r =>
    refine ⟨rfl, ?_⟩
    by_cases hroom : c.HasRoom r.encode.length
    · rw [Connection.call, Connection.call, submit_of_hasRoom hroom, submit_of_hasRoom]
      · exact ⟨_, _, _, rfl⟩
      · exact hroom
    · rw [Connection.call, Connection.call, submit_of_not_hasRoom hroom, submit_of_not_hasRoom]
      · exact ⟨_, _, _, rfl⟩
      · exact hroom
  | parse bytes => exact absurd rfl (hk bytes)
  | clearKeyboard => exact ⟨rfl, _, _, _, rfl⟩
  | flush capacity =>
    simp only [Connection.call, Connection.flush]
    split
    · exact ⟨rfl, _, _, _, rfl⟩
    split
    · exact ⟨rfl, _, _, _, rfl⟩
    · exact ⟨rfl, _, _, _, rfl⟩

theorem apply (h : Alike c d) (e : Event) :
    (d.run (e.window?.toList.map (resizing c.settings))).1 = [] ∧
      Alike (c.apply e) (d.run (e.window?.toList.map (resizing c.settings))).2 := by
  obtain ⟨decoder, keyboard, reports, rfl⟩ := h
  cases e with
  | windowSize width height =>
    have hcall := call_resizing { c with decoder, keyboard, reportsWindowSize := reports }
      (width, height)
    rw [show (Event.windowSize width height).window?.toList.map (resizing c.settings) =
      [resizing c.settings (width, height)] from rfl, run_cons, hcall]
    exact ⟨rfl, _, _, _, rfl⟩
  | negotiation verb option =>
    simp only [Connection.apply]
    split <;> exact ⟨rfl, _, _, _, rfl⟩
  | _ => exact ⟨rfl, _, _, _, rfl⟩

theorem foldl_apply (h : Alike c d) (events : List Event) :
    (d.run ((events.filterMap Event.window?).map (resizing c.settings))).1 = [] ∧
      Alike (events.foldl Connection.apply c)
        (d.run ((events.filterMap Event.window?).map (resizing c.settings))).2 := by
  induction events generalizing c d with
  | nil => exact ⟨rfl, h⟩
  | cons e events ih =>
    have hsplit : (e :: events).filterMap Event.window? =
        e.window?.toList ++ events.filterMap Event.window? := by
      rw [List.filterMap_cons]
      cases e.window? <;> rfl
    obtain ⟨hfirst, hnext⟩ := h.apply e
    obtain ⟨hrest, hend⟩ := ih hnext
    rw [c.apply_settings e] at hrest hend
    rw [hsplit, List.map_append, run_append, hfirst, hrest]
    exact ⟨rfl, hend⟩

end Alike

theorem call_frame (c : Connection) (hk : ∀ bytes, k ≠ .parse bytes) :
    (c.call k).2.settings = c.settings ∧ (c.call k).2.decoder = c.decoder := by
  cases k with
  | screen k => exact ⟨rfl, rfl⟩
  | submit r =>
    obtain ⟨h, hdecoder⟩ := c.heard_submit r
    exact ⟨h.settings, hdecoder⟩
  | parse bytes => exact absurd rfl (hk bytes)
  | clearKeyboard => exact ⟨rfl, rfl⟩
  | flush capacity =>
    obtain ⟨h, hdecoder⟩ := c.heard_flush capacity
    exact ⟨h.settings, hdecoder⟩

/-- A run sends what it sends if all that the client does is to change the size of the screen. -/
theorem run_withSizes (h : Alike c d) (calls : List Call) :
    (c.run calls).1 = (d.run (withSizes c.settings c.decoder calls)).1 ∧
      Alike (c.run calls).2 (d.run (withSizes c.settings c.decoder calls)).2 := by
  induction calls generalizing c d with
  | nil => exact ⟨rfl, h⟩
  | cons k ks ih =>
    -- A call that stays does the same on both sides, and the client's input has no part in it.
    have hother : (∀ bytes, k ≠ .parse bytes) →
        (c.run (k :: ks)).1 = (d.run (k :: withSizes c.settings c.decoder ks)).1 ∧
          Alike (c.run (k :: ks)).2 (d.run (k :: withSizes c.settings c.decoder ks)).2 := by
      intro hk
      obtain ⟨hsame, hnext⟩ := h.call hk
      obtain ⟨hsettings, hdecoder⟩ := c.call_frame hk
      obtain ⟨hrest, hend⟩ := ih hnext
      rw [hsettings, hdecoder] at hrest hend
      rw [run_cons, run_cons, hsame, hrest]
      exact ⟨rfl, hend⟩
    cases k with
    | parse bytes =>
      have hread : Alike { c with decoder := (c.decoder.parse bytes).2 } d := by
        obtain ⟨decoder, keyboard, reports, rfl⟩ := h
        exact ⟨_, _, _, rfl⟩
      obtain ⟨hheard, hdecoder⟩ := c.heard_parse bytes
      obtain ⟨hsizes, hnext⟩ := hread.foldl_apply (c.decoder.parse bytes).1
      obtain ⟨hrest, hend⟩ := ih (c := c.parse bytes) hnext
      rw [hheard.settings, hdecoder] at hrest hend
      rw [run_cons, withSizes, run_append, hsizes]
      exact ⟨hrest, hend⟩
    | clearKeyboard =>
      have hcleared : Alike c.clearKeyboard d := by
        obtain ⟨decoder, keyboard, reports, rfl⟩ := h
        exact ⟨_, _, _, rfl⟩
      exact ih hcleared
    | screen k => exact hother fun _ => nofun
    | submit r => exact hother fun _ => nofun
    | flush capacity => exact hother fun _ => nofun

theorem withSizes_of_no_reads (decoder decoder' : Decoder) (hreads : reads calls = []) :
    withSizes settings decoder calls = withSizes settings decoder' calls := by
  induction calls with
  | nil => rfl
  | cons k ks ih =>
    rw [reads_cons] at hreads
    obtain ⟨hfirst, hrest⟩ := List.append_eq_nil_iff.mp hreads
    cases k with
    | parse bytes => cases hfirst
    | clearKeyboard => exact ih hrest
    | screen k => exact congrArg (Call.screen k :: ·) (ih hrest)
    | submit r => exact congrArg (Call.submit r :: ·) (ih hrest)
    | flush capacity => exact congrArg (Call.flush capacity :: ·) (ih hrest)

theorem alike_parse {bytes : List UInt8} (h : ∀ e ∈ (c.decoder.parse bytes).1, c.KeepsSize e) :
    (c.parse bytes).screen = c.screen ∧ (c.parse bytes).outbound = c.outbound ∧
      Alike (c.parse bytes) c := by
  have hscreen : (c.parse bytes).screen = c.screen :=
    screen_foldl_apply (c := { c with decoder := (c.decoder.parse bytes).2 }) h
  obtain ⟨-, hqueue⟩ := c.parse_frame bytes
  obtain ⟨hheard, -⟩ := c.heard_parse bytes
  refine ⟨hscreen, hqueue, c.decoder, c.keyboard, c.reportsWindowSize, ?_⟩
  rw [hscreen, hqueue, hheard.settings]

theorem sent_behind_parse {bytes : List UInt8}
    (h : ∀ e ∈ (c.decoder.parse bytes).1, c.KeepsSize e) (later : List Call) :
    ((c.parse bytes).run later).1 =
        (c.run (withSizes c.settings (c.decoder.parse bytes).2 later)).1 ∧
      (reads later = [] → ((c.parse bytes).run later).1 = (c.run later).1) := by
  obtain ⟨-, -, halike⟩ := alike_parse h
  obtain ⟨hheard, hdecoder⟩ := c.heard_parse bytes
  obtain ⟨hsent, -⟩ := run_withSizes halike later
  rw [hheard.settings, hdecoder] at hsent
  refine ⟨hsent, fun hreads => ?_⟩
  -- Where nothing is read, it does not matter in which state the decoder was left.
  obtain ⟨hsame, -⟩ := run_withSizes (Alike.refl c) later
  rw [hsent, hsame, withSizes_of_no_reads _ c.decoder hreads]

/-! ### From settings on -/

theorem fresh_of_ofSettings {s : Settings} (h : ofSettings s = .ok c) :
    c.decoder = { limit := s.connection.maxSubnegotiation.toNat } ∧ c.reportsWindowSize = false ∧
      c.size = (s.screen.columns.toNat, s.screen.rows.toNat) := by
  obtain ⟨screen, hscreen, heq⟩ := exists_screen s
  obtain ⟨-, rfl⟩ := Screen.create_inv hscreen
  rcases create_inv (heq ▸ h) with rfl | rfl
  · exact ⟨rfl, rfl, rfl⟩
  · obtain ⟨hheard, hdecoder⟩ := heard_submit (bare _ s.connection) .negotiation
    exact ⟨hdecoder, hheard.reports, hheard.size⟩

theorem sizeFor_bounds {s : Settings} (h : s.validate = .ok ()) (window : UInt16 × UInt16) :
    (s.connection.minColumns.toNat ≤ (s.connection.sizeFor window).1 ∧
      (s.connection.sizeFor window).1 ≤ s.connection.maxColumns.toNat) ∧
    s.connection.minRows.toNat ≤ (s.connection.sizeFor window).2 ∧
      (s.connection.sizeFor window).2 ≤ s.connection.maxRows.toNat := by
  obtain ⟨hcolumns, hrows⟩ := Settings.bounds_of_validate h
  have hwidth := clamp_mem_bounds hcolumns window.1
  have hheight := clamp_mem_bounds hrows window.2
  simp only [UInt16.le_iff_toNat_le] at hwidth hheight
  exact ⟨hwidth, hheight⟩

/-- Of valid settings no size is zero, neither the first one nor one that a report leads to. -/
theorem size_pos {s : Settings} (h : s.validate = .ok ()) (window : Option (UInt16 × UInt16)) :
    let size := (window.map s.connection.sizeFor).getD
      (s.screen.columns.toNat, s.screen.rows.toNat)
    0 < size.1 ∧ 0 < size.2 := by
  obtain ⟨⟨hminColumns, hminRows⟩, hscreen⟩ := Settings.positive_of_validate h
  cases window with
  | none => exact hscreen
  | some window =>
    obtain ⟨⟨hwidth, -⟩, hheight, -⟩ := sizeFor_bounds h window
    exact ⟨Nat.lt_of_lt_of_le hminColumns hwidth, Nat.lt_of_lt_of_le hminRows hheight⟩

/-- With valid settings, and as long as only the client changes the size of the screen, a connection
takes the client to report its window size exactly if the last verb on that was WILL or DO, and its
screen has the size that the settings allow for the last window reported, or its first one. So the size
lies within the bounds of the settings once a window has been reported, and it is never zero. A read
that reports no other size changes neither the screen nor the queue, and what is sent later depends on
it by no more than the sizes that later reads complete. A connection can be made if its queue is
addressable. -/
theorem input_acts_by_last_events {s : Settings} (hvalid : s.validate = .ok ()) :
    (s.connection.outboundCapacity.toNat ≤ maxObjectBytes → ∃ c₀, ofSettings s = .ok c₀) ∧
    ∀ c₀, ofSettings s = .ok c₀ → ∀ calls : List Call, c₀.SizedByInput calls →
      let c := (c₀.run calls).2
      let events := (Decoder.readAll { limit := s.connection.maxSubnegotiation.toNat }
        (reads calls)).1
      (c.reportsWindowSize = true ↔ Event.last Event.reporting? events = some .will ∨
        Event.last Event.reporting? events = some .ask) ∧
      c.size = ((Event.last Event.window? events).map s.connection.sizeFor).getD
        (s.screen.columns.toNat, s.screen.rows.toNat) ∧
      (Event.last Event.window? events ≠ none →
        (s.connection.minColumns.toNat ≤ c.screen.width ∧
          c.screen.width ≤ s.connection.maxColumns.toNat) ∧
        s.connection.minRows.toNat ≤ c.screen.height ∧
          c.screen.height ≤ s.connection.maxRows.toNat) ∧
      (0 < c.screen.width ∧ 0 < c.screen.height) ∧
      ∀ bytes : List UInt8, (∀ e ∈ (c.decoder.parse bytes).1, c.KeepsSize e) →
        (c.parse bytes).screen = c.screen ∧ (c.parse bytes).outbound = c.outbound ∧
        ∀ later : List Call,
          ((c.parse bytes).run later).1 =
            (c.run (withSizes s.connection (c.decoder.parse bytes).2 later)).1 ∧
          (reads later = [] → ((c.parse bytes).run later).1 = (c.run later).1) := by
  refine ⟨(exists_ofSettings_iff s).mpr, ?_⟩
  intro c₀ hnew calls hcalls c events
  obtain ⟨hdecoder, hreports, hfirst⟩ := fresh_of_ofSettings hnew
  obtain ⟨hheard, -⟩ := heard_run hcalls
  rw [hdecoder] at hheard
  have hsettings : c₀.settings = s.connection := by
    obtain ⟨screen, heq⟩ := ofSettings_eq s
    exact (configured_of_create (heq ▸ hnew)).settings
  have hsize : c.size = ((Event.last Event.window? events).map s.connection.sizeFor).getD
      (s.screen.columns.toNat, s.screen.rows.toNat) := by
    rw [hheard.size, hsettings, hfirst]
  refine ⟨?_, hsize, fun hsome => ?_, ?_, fun bytes hkeeps => ?_⟩
  · rw [hheard.reports, hreports]
    cases Event.last Event.reporting? events with
    | none => simp
    | some verb => cases verb <;> simp [Verb.isPositive]
  · obtain ⟨window, hwindow⟩ := Option.ne_none_iff_exists'.mp hsome
    have hbounds := sizeFor_bounds hvalid window
    rw [hwindow] at hsize
    rw [← show c.size = s.connection.sizeFor window from hsize] at hbounds
    exact hbounds
  · have hpos := size_pos hvalid (Event.last Event.window? events)
    rw [← hsize] at hpos
    exact hpos
  · obtain ⟨hscreen, hqueue, -⟩ := alike_parse hkeeps
    have hsent := sent_behind_parse hkeeps
    rw [hheard.settings, hsettings] at hsent
    exact ⟨hscreen, hqueue, hsent⟩

/-- Settings under which any window that is reported makes the screen narrower. -/
def narrowSettings : Settings where
  screen := { columns := 6, rows := 1 }
  connection := { minColumns := 2, minRows := 1, maxColumns := 4, maxRows := 2 }

/-- The client agrees to report its window, and reports one of 200 columns and no row in two reads. -/
def reportInTwo : List Call :=
  [.parse [Telnet.iac, Verb.will.byte, Telnet.windowSize], .flush 100,
    .parse [Telnet.iac, Telnet.sb, Telnet.windowSize, 0], .clearKeyboard, .submit (.text "a"),
    .parse [200, 0, 0, Telnet.iac, Telnet.se, 0x61]]

/-- A window of 9 columns and a row, which has the same size, and an arrow. -/
def sameSize : List UInt8 :=
  [Telnet.iac, Telnet.sb, Telnet.windowSize, 0, 9, 0, 1, Telnet.iac, Telnet.se,
    Telnet.esc, Telnet.bracket, 0x41]

theorem input_acts_by_last_events_of_two : ∃ c₀ c, ofSettings narrowSettings = .ok c₀ ∧
    (c₀.run reportInTwo).2 = c ∧ c.reportsWindowSize = true ∧ c.size = (4, 1) ∧
    (c.parse sameSize).screen = c.screen ∧ ((c.parse sameSize).run [.flush 5, .flush 100]).1 =
      (c.run [.flush 5, .flush 100]).1 := by
  obtain ⟨c₀, hnew, hsized, hkeeps⟩ : ∃ c₀, ofSettings narrowSettings = .ok c₀ ∧
      c₀.SizedByInput reportInTwo ∧ ∀ e ∈ ((c₀.run reportInTwo).2.decoder.parse sameSize).1,
        (c₀.run reportInTwo).2.KeepsSize e :=
    ⟨_, rfl, by decide +kernel, by decide +kernel⟩
  have hvalid : narrowSettings.validate = .ok () := rfl
  obtain ⟨-, hinput⟩ := input_acts_by_last_events hvalid
  obtain ⟨hreports, hsize, -, -, hread⟩ := hinput c₀ hnew reportInTwo hsized
  obtain ⟨hscreen, -, hlater⟩ := hread sameSize hkeeps
  exact ⟨c₀, _, hnew, rfl, hreports.mpr (by decide +kernel), hsize.trans (by decide +kernel),
    hscreen, (hlater _).2 rfl⟩

end Connection
end RemoteScreen
