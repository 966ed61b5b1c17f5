import RemoteScreen.Proofs.Connection.Calls
import RemoteScreen.Proofs.Settings.Validity
import RemoteScreen.Proofs.Telnet.Wire

/-! Reports of the window size. A report has no ESC that a cut could take an arrow from, so the decoder
reads it as one event however it is cut into reads, or drops it where the settings keep no payload of
four bytes. The connection then takes over the size as far as the settings allow. -/

namespace RemoteScreen
namespace Telnet
namespace Decoder

variable {d : Decoder} {a b : List UInt8} {reads : List (List UInt8)}

/-! ### Reads without keys -/

/-- An arrow reports its key, or leaves the decoder in it. So no cut takes one from its ESC in an input
that reports no key and is complete. -/
theorem not_cutsArrow (hkeys : ∀ k, Event.key k ∉ (d.parse (a ++ b)).1)
    (hidle : (d.parse (a ++ b)).2.isIdle = true) : ¬d.CutsArrow a b := by
  rintro ⟨hwait, htail⟩
  obtain ⟨-, hparse⟩ := readAll_pair_of_waitsAfter hwait b
  match b, htail with
  | [_], rfl =>
    rw [hparse] at hidle
    cases hidle
  | _ :: letter :: rest, ⟨rfl, hmem⟩ =>
    obtain ⟨key, hkey⟩ := exists_mem_arrows hmem
    rw [parse_escape_arrow d.limit hkey] at hparse
    refine hkeys (.named key) ?_
    rw [hparse]
    exact List.mem_append_right _ (List.mem_cons_self)

theorem readAll_of_keyless (hne : reads ≠ [])
    (hkeys : ∀ k, Event.key k ∉ (d.parse reads.flatten).1)
    (hidle : (d.parse reads.flatten).2.isIdle = true) :
    d.readAll reads = d.parse reads.flatten := by
  refine readAll_of_uncut hne fun n _ _ => ?_
  have hsplit : (reads.take n).flatten ++ (reads.drop n).flatten = reads.flatten := by
    rw [← List.flatten_append, List.take_append_drop]
  exact not_cutsArrow (hsplit ▸ hkeys) (hsplit ▸ hidle)

/-! ### Subnegotiations -/

theorem key_notMem_report (limit : Nat) (option : UInt8) (payload : List UInt8) (k : Key) :
    Event.key k ∉ Grammar.report limit option payload := by
  unfold Grammar.report
  split
  · exact List.not_mem_nil
  split
  · simp
  split <;> simp

theorem readAll_subnegotiation {option : UInt8} {payload : List UInt8} (hidle : d.isIdle = true)
    (hreads : reads.flatten = subnegotiation option payload) :
    d.readAll reads = (Grammar.report d.limit option payload, d) := by
  obtain ⟨limit, mode⟩ := d
  obtain rfl : mode = .ground := of_decide_eq_true hidle
  have hne : reads ≠ [] := by
    rintro rfl
    cases hreads
  have hparse := parse_subnegotiation limit option payload
  rw [← hreads] at hparse
  rw [readAll_of_keyless hne, hparse]
  · rw [hparse]
    exact key_notMem_report limit option payload
  · rw [hparse]
    rfl

end Decoder

namespace Grammar

theorem report_windowSize_of_lt {limit : Nat} (h : limit < 4) (width height : UInt16) :
    report limit windowSize (bytesOfWord width ++ bytesOfWord height) = [] :=
  if_pos h

end Grammar
end Telnet

/-! ### Bounds -/

theorem clamp_mem_bounds {low high : UInt16} (h : low ≤ high) (n : UInt16) :
    low ≤ clamp low high n ∧ clamp low high n ≤ high := by
  have hraised : low ≤ max n low := by
    show low ≤ if n ≤ low then low else n
    split
    · exact UInt16.le_refl low
    next hlt => exact UInt16.le_of_lt (UInt16.not_le.mp hlt)
  exact ⟨Std.le_min_iff.mpr ⟨hraised, h⟩, Std.min_le_right⟩

namespace Connection

open Telnet (Decoder Event)

variable {c : Connection} {s : Settings}

/-! ### Reads -/

theorem apply_withDecoder (c : Connection) (d : Decoder) (e : Event) :
    ({ c with decoder := d } : Connection).apply e = { c.apply e with decoder := d } := by
  cases e with
  | negotiation verb option =>
    simp only [apply]
    split <;> rfl
  | _ => rfl

theorem foldl_apply_withDecoder (c : Connection) (d : Decoder) (events : List Event) :
    events.foldl apply { c with decoder := d } =
      { events.foldl apply c with decoder := d } := by
  induction events generalizing c with
  | nil => rfl
  | cons e events ih => rw [List.foldl_cons, List.foldl_cons, apply_withDecoder, ih]

theorem run_parse (c : Connection) (reads : List (List UInt8)) :
    (c.run (reads.map .parse)).2 =
      { (c.decoder.readAll reads).1.foldl apply c with decoder := (c.decoder.readAll reads).2 } := by
  induction reads generalizing c with
  | nil => rfl
  | cons bytes reads ih =>
    have hcall : (c.call (.parse bytes)).2 =
        { (c.decoder.parse bytes).1.foldl apply c with decoder := (c.decoder.parse bytes).2 } :=
      foldl_apply_withDecoder c _ _
    rw [List.map_cons, run_cons, ih, hcall, foldl_apply_withDecoder, Decoder.readAll_cons,
      Decoder.prepend, List.foldl_append]

/-! ### Reports -/

/-- A report that the decoder keeps is taken over, and another one changes nothing. -/
theorem run_windowSize {reads : List (List UInt8)} (hidle : c.decoder.isIdle = true)
    (width height : UInt16)
    (hreads : reads.flatten = Telnet.subnegotiation Telnet.windowSize
      (Telnet.bytesOfWord width ++ Telnet.bytesOfWord height)) :
    (4 ≤ c.decoder.limit → (c.run (reads.map .parse)).2 = c.resizeTo width height) ∧
      (c.decoder.limit < 4 → (c.run (reads.map .parse)).2 = c) := by
  rw [run_parse, Decoder.readAll_subnegotiation hidle hreads]
  constructor
  · intro hlimit
    rw [Telnet.Grammar.report_windowSize hlimit]
    rfl
  · intro hlimit
    rw [Telnet.Grammar.report_windowSize_of_lt hlimit]
    rfl

/-- With valid settings that keep payloads of four bytes, a report of the window size gives the screen
the size that the settings allow for it, after any calls that leave the decoder idle, and cut
anywhere; and that size lies within the bounds of the settings. With valid settings that keep less, a
report changes nothing. A connection can be made if its queue is addressable. -/
theorem size_of_windowSize_report {s : Settings} (hvalid : s.validate = .ok ()) :
    (s.connection.outboundCapacity.toNat ≤ maxObjectBytes → ∃ c₀, ofSettings s = .ok c₀) ∧
    ∀ c₀, ofSettings s = .ok c₀ → ∀ before : List Call,
      (c₀.run before).2.decoder.isIdle = true → ∀ (width height : UInt16) (reads : List (List UInt8)),
      reads.flatten = Telnet.subnegotiation Telnet.windowSize
        (Telnet.bytesOfWord width ++ Telnet.bytesOfWord height) →
      let c := (c₀.run before).2
      let d := (c.run (reads.map .parse)).2
      let size := s.connection.clampSize width height
      (4 ≤ s.connection.maxSubnegotiation.toNat →
        d.screen.width = size.1.toNat ∧ d.screen.height = size.2.toNat) ∧
      (s.connection.maxSubnegotiation.toNat < 4 → d = c) ∧
      (s.connection.minColumns ≤ size.1 ∧ size.1 ≤ s.connection.maxColumns) ∧
      s.connection.minRows ≤ size.2 ∧ size.2 ≤ s.connection.maxRows := by
  refine ⟨(exists_ofSettings_iff s).mpr, ?_⟩
  intro c₀ hnew before hidle width height reads hreads
  obtain ⟨screen, heq⟩ := ofSettings_eq s
  have hconfigured := (configured_of_create (heq ▸ hnew)).run before
  obtain ⟨hkept, hdropped⟩ := run_windowSize hidle width height hreads
  rw [hconfigured.limit] at hkept hdropped
  obtain ⟨hcolumns, hrows⟩ := Settings.bounds_of_validate hvalid
  refine ⟨fun hlimit => ?_, hdropped, clamp_mem_bounds hcolumns width, clamp_mem_bounds hrows height⟩
  rw [hkept hlimit]
  simp only [resizeTo, hconfigured.settings]
  exact Screen.size_reshape _ _ _

/-- Settings under which a screen of two columns can grow to 255, with a bound on payloads. -/
def smallSettings (maxSubnegotiation : UInt64) : Settings where
  screen := { columns := 2, rows := 1 }
  connection := { minColumns := 2, minRows := 1, maxColumns := 255, maxSubnegotiation }

/-- A window of 255 columns and 3 rows, cut between the two IACs of its width and at its end. -/
def windowReads : List (List UInt8) :=
  [[Telnet.iac, Telnet.sb, Telnet.windowSize, 0, Telnet.iac], [Telnet.iac, 0, 3, Telnet.iac],
    [Telnet.se]]

theorem size_of_windowSize_report_cut : ∃ c₀, ofSettings (smallSettings 4) = .ok c₀ ∧
    let d := ((c₀.run [.parse [0x61, Telnet.esc]]).2.run (windowReads.map .parse)).2
    d.screen.width = 255 ∧ d.screen.height = 3 := by
  have hvalid : (smallSettings 4).validate = .ok () := rfl
  obtain ⟨c₀, hnew, hidle⟩ : ∃ c₀, ofSettings (smallSettings 4) = .ok c₀ ∧
      (c₀.run [.parse [0x61, Telnet.esc]]).2.decoder.isIdle = true :=
    ⟨_, rfl, by decide +kernel⟩
  obtain ⟨-, hreport⟩ := size_of_windowSize_report hvalid
  obtain ⟨hsize, -⟩ := hreport c₀ hnew _ hidle 255 3 windowReads (by decide +kernel)
  exact ⟨c₀, hnew, hsize (by decide +kernel)⟩

/-- Settings that keep three bytes are valid, and no report changes the size. -/
theorem size_of_dropped_report : (smallSettings 3).validate = .ok () ∧
    (smallSettings 3).connection.clampSize 255 3 = (255, 3) ∧
    windowReads.flatten = Telnet.subnegotiation Telnet.windowSize
      (Telnet.bytesOfWord 255 ++ Telnet.bytesOfWord 3) ∧
    ∃ c₀, ofSettings (smallSettings 3) = .ok c₀ ∧ c₀.decoder.isIdle = true ∧
      (c₀.run (windowReads.map .parse)).2.screen.width = 2 ∧
      (c₀.run (windowReads.map .parse)).2.screen.height = 1 :=
  ⟨rfl, by decide +kernel, by decide +kernel, _, rfl, by decide +kernel, by decide +kernel,
    by decide +kernel⟩

end Connection
end RemoteScreen
