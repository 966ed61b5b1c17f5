import RemoteScreen.Proofs.Telnet.Calls

/-! Decoders with different limits. One with a smaller limit is always in the mode of the other one,
but for payloads that it skips where the other one still collects (`Mode.under`). So both frame
their input alike, and the smaller limit only takes away what is reported of longer payloads. -/

namespace RemoteScreen.Telnet

/-- Whether the event reports a payload of at most this length, or none. -/
def Event.Fits (limit : Nat) : Event → Prop
  | .subnegotiation _ payload => payload.length ≤ limit
  | .windowSize _ _ => 4 ≤ limit
  | _ => True

instance (limit : Nat) : ∀ e : Event, Decidable (e.Fits limit)
  | .subnegotiation _ payload => inferInstanceAs (Decidable (payload.length ≤ limit))
  | .windowSize _ _ => inferInstanceAs (Decidable (4 ≤ limit))
  | .key _ | .negotiation _ _ | .command _ => .isTrue trivial

/-- Whether the event reports a payload. -/
def Event.isReport : Event → Bool
  | .subnegotiation _ _ | .windowSize _ _ => true
  | _ => false

/-- The events that are left of some under a limit. -/
def fitting (limit : Nat) (events : List Event) : List Event :=
  events.filter fun e => e.Fits limit

theorem fitting_singleton (limit : Nat) (e : Event) :
    fitting limit [e] = if e.Fits limit then [e] else [] := by
  by_cases h : e.Fits limit <;> simp [fitting, h]

namespace Decoder

variable {low high : Nat} {b : UInt8}

/-- The mode that skips a payload instead of one that is longer than the limit. -/
def Mode.under (limit : Nat) : Mode → Mode
  | .payload code bytes => if bytes.length ≤ limit then .payload code bytes else .skipped
  | .payloadCommand code bytes =>
    if bytes.length ≤ limit then .payloadCommand code bytes else .skippedCommand
  | mode => mode

/-! ### In a payload -/

theorem collect_eq (limit : Nat) (option : UInt8) (bytes : List UInt8) (b : UInt8) :
    collect limit option bytes b = Mode.under limit (.payload option (bytes ++ [b])) := by
  simp only [collect, Mode.under, List.length_append, List.length_singleton, Nat.lt_iff_add_one_le]

theorem under_collect (h : low ≤ high) (option : UInt8) (bytes : List UInt8) (b : UInt8) :
    (collect high option bytes b).under low = Mode.under low (.payload option (bytes ++ [b])) := by
  rw [collect_eq]
  by_cases hlen : (bytes ++ [b]).length ≤ high
  · simp only [Mode.under, if_pos hlen]
  · have hlong : ¬(bytes ++ [b]).length ≤ low := fun hle => hlen (Nat.le_trans hle h)
    simp only [Mode.under, if_neg hlen, if_neg hlong]

theorem step_payload (limit : Nat) (option : UInt8) (bytes : List UInt8) (hb : b ≠ iac) :
    step limit (Mode.under limit (.payload option bytes)) b =
      (Mode.under limit (.payload option (bytes ++ [b])), []) := by
  by_cases hlen : bytes.length ≤ limit
  · simp only [Mode.under, if_pos hlen, step, if_neg hb]
    rw [collect_eq]
    rfl
  · have hlong : ¬(bytes ++ [b]).length ≤ limit := by
      rw [List.length_append]
      omega
    simp only [Mode.under, if_neg hlen, if_neg hlong, step, if_neg hb]

theorem step_payload_iac (limit : Nat) (option : UInt8) (bytes : List UInt8) :
    step limit (Mode.under limit (.payload option bytes)) iac =
      (Mode.under limit (.payloadCommand option bytes), []) := by
  by_cases hlen : bytes.length ≤ limit
  · simp only [Mode.under, if_pos hlen, step, if_true]
  · simp only [Mode.under, if_neg hlen, step, if_true]

theorem step_payloadCommand_iac (limit : Nat) (option : UInt8) (bytes : List UInt8) :
    step limit (Mode.under limit (.payloadCommand option bytes)) iac =
      (Mode.under limit (.payload option (bytes ++ [iac])), []) := by
  by_cases hlen : bytes.length ≤ limit
  · simp only [Mode.under, if_pos hlen, step, if_true]
    rw [collect_eq]
    rfl
  · have hlong : ¬(bytes ++ [iac]).length ≤ limit := by
      rw [List.length_append]
      omega
    simp only [Mode.under, if_neg hlen, if_neg hlong, step, if_true]

/-- A payload that fits has a report that fits. -/
theorem fitting_ofSubnegotiation (limit : Nat) (option : UInt8) (bytes : List UInt8) :
    fitting limit (Event.ofSubnegotiation option bytes).toList =
      if bytes.length ≤ limit then (Event.ofSubnegotiation option bytes).toList else [] := by
  unfold Event.ofSubnegotiation
  split
  next =>
    split
    next => exact fitting_singleton limit _
    next => simp [fitting]
  next => exact fitting_singleton limit _

theorem step_payloadCommand_se (limit : Nat) (option : UInt8) (bytes : List UInt8) :
    step limit (Mode.under limit (.payloadCommand option bytes)) se =
      (.ground, fitting limit (Event.ofSubnegotiation option bytes).toList) := by
  rw [fitting_ofSubnegotiation]
  by_cases hlen : bytes.length ≤ limit
  · simp only [Mode.under, if_pos hlen]
    rfl
  · simp only [Mode.under, if_neg hlen]
    rfl

/-- Another command ends the payload, and is read as it would be outside. -/
theorem step_payloadCommand (limit : Nat) (option : UInt8) (bytes : List UInt8) (hiac : b ≠ iac)
    (hse : b ≠ se) :
    step limit (Mode.under limit (.payloadCommand option bytes)) b = readCommand b := by
  by_cases hlen : bytes.length ≤ limit
  · simp only [Mode.under, if_pos hlen, step, if_neg hiac, if_neg hse]
  · simp only [Mode.under, if_neg hlen, step, if_neg hiac, if_neg hse]

/-! ### One byte -/

theorem readGround_under (limit : Nat) (b : UInt8) :
    readGround b = ((readGround b).1.under limit, fitting limit (readGround b).2) := by
  unfold readGround
  split
  next => rfl
  split
  next => rfl
  next => cases key? b <;> rfl

theorem readAfterEscape_under (limit : Nat) (b : UInt8) :
    readAfterEscape b =
      ((readAfterEscape b).1.under limit, fitting limit (readAfterEscape b).2) := by
  have hground := readGround_under limit b
  simp only [Prod.ext_iff] at hground
  exact Prod.ext hground.1 (congrArg (Event.key (.named .escape) :: ·) hground.2)

theorem readCommand_under (limit : Nat) (b : UInt8) :
    readCommand b = ((readCommand b).1.under limit, fitting limit (readCommand b).2) := by
  unfold readCommand
  split
  next => rfl
  split
  next => rfl
  split <;> rfl

/-- Under a smaller limit the machine makes the same step, but skips what is too long for it and
reports nothing of that. -/
theorem step_under (h : low ≤ high) (mode : Mode) (b : UInt8) :
    step low (mode.under low) b =
      ((step high mode b).1.under low, fitting low (step high mode b).2) := by
  cases mode with
  | ground => exact readGround_under low b
  | escape =>
    simp only [Mode.under, step]
    split
    next => rfl
    next => exact readAfterEscape_under low b
  | arrow =>
    simp only [Mode.under, step]
    split
    next => rfl
    next => exact readAfterEscape_under low b
  | command => exact readCommand_under low b
  | option verb => rfl
  | subnegotiation => rfl
  | payload option bytes =>
    by_cases hb : b = iac
    · subst hb
      rw [step_payload_iac]
      rfl
    · rw [step_payload low option bytes hb]
      simp only [step, if_neg hb]
      rw [under_collect h]
      rfl
  | payloadCommand option bytes =>
    by_cases hiac : b = iac
    · subst hiac
      rw [step_payloadCommand_iac]
      simp only [step, if_true]
      rw [under_collect h]
      rfl
    by_cases hse : b = se
    · subst hse
      rw [step_payloadCommand_se]
      rfl
    · rw [step_payloadCommand low option bytes hiac hse]
      simp only [step, if_neg hiac, if_neg hse]
      exact readCommand_under low b
  | skipped =>
    simp only [Mode.under, step]
    split <;> rfl
  | skippedCommand =>
    simp only [Mode.under, step]
    split
    next => rfl
    split
    next => rfl
    next => exact readCommand_under low b

/-! ### Calls -/

theorem fitting_append (limit : Nat) (es fs : List Event) :
    fitting limit (es ++ fs) = fitting limit es ++ fitting limit fs :=
  List.filter_append es fs

/-- The decoder with a limit, in the mode that it has under it. -/
def under (limit : Nat) (d : Decoder) : Decoder :=
  ⟨limit, d.mode.under limit⟩

theorem isIdle_under (limit : Nat) (d : Decoder) : (d.under limit).isIdle = d.isIdle := by
  obtain ⟨high, mode⟩ := d
  cases mode with
  | payload option bytes =>
    simp only [under, Mode.under]
    split <;> rfl
  | payloadCommand option bytes =>
    simp only [under, Mode.under]
    split <;> rfl
  | _ => rfl

theorem settle_under (limit : Nat) (mode : Mode) :
    settle (mode.under limit) = ((settle mode).1.under limit, fitting limit (settle mode).2) := by
  cases mode with
  | payload option bytes =>
    have hne : Mode.under limit (.payload option bytes) ≠ .escape := by
      simp only [Mode.under]
      split <;> nofun
    exact settle_of_ne hne
  | payloadCommand option bytes =>
    have hne : Mode.under limit (.payloadCommand option bytes) ≠ .escape := by
      simp only [Mode.under]
      split <;> nofun
    exact settle_of_ne hne
  | _ => rfl

theorem parse_under (h : low ≤ high) (mode : Mode) (bytes : List UInt8) :
    parse ⟨low, mode.under low⟩ bytes =
      (fitting low (parse ⟨high, mode⟩ bytes).1, (parse ⟨high, mode⟩ bytes).2.under low) := by
  induction bytes generalizing mode with
  | nil =>
    rw [parse_nil, parse_nil, settle_under]
    rfl
  | cons b bytes ih =>
    rw [parse_cons, parse_cons, step_under h, ih]
    simp only [prepend, fitting_append]

theorem limit_call (d : Decoder) (k : Call) : (d.call k).2.limit = d.limit := by
  cases k <;> rfl

theorem call_under {d : Decoder} (h : low ≤ d.limit) (k : Call) :
    (d.under low).call k = (fitting low (d.call k).1, (d.call k).2.under low) := by
  cases k with
  | read bytes => exact parse_under h d.mode bytes
  | reset => rfl

/-- A run of calls under a smaller limit. -/
theorem run_under {d : Decoder} (h : low ≤ d.limit) (ks : List Call) :
    (d.under low).events ks = (d.events ks).map (fitting low) ∧
      (d.under low).after ks = (d.after ks).under low := by
  induction ks generalizing d with
  | nil => exact ⟨rfl, rfl⟩
  | cons k ks ih =>
    obtain ⟨hevents, hafter⟩ := ih ((limit_call d k).symm ▸ h)
    rw [events_cons, after_cons, call_under h, events_cons, after_cons]
    exact ⟨congrArg _ hevents, hafter⟩

theorem fitting_isReport (limit : Nat) (events : List Event) :
    (fitting limit events).filter (!·.isReport) = events.filter (!·.isReport) := by
  rw [fitting, List.filter_filter]
  refine List.filter_congr fun e _ => ?_
  cases e <;> rfl

/-- After every call two new decoders with limits `low ≤ high` are both idle or both not. But for
reports of payloads they have answered the same; and the one with the limit `low` has answered what
the other one has, without the subnegotiations that are longer than `low`, and without the window
sizes if their four bytes are. -/
theorem events_fitting_of_le {low high : Nat} (h : low ≤ high) (ks : List Call) :
    (after { limit := low } ks).isIdle = (after { limit := high } ks).isIdle ∧
    (events { limit := low } ks).map (List.filter (!·.isReport)) =
      (events { limit := high } ks).map (List.filter (!·.isReport)) ∧
    events { limit := low } ks = (events { limit := high } ks).map (fitting low) := by
  obtain ⟨hevents, hafter⟩ := run_under (d := { limit := high }) h ks
  have hnew : under low { limit := high } = { limit := low } := rfl
  rw [hnew] at hevents hafter
  refine ⟨?_, ?_, hevents⟩
  · rw [hafter, isIdle_under]
  · rw [hevents, List.map_map]
    refine List.map_congr_left fun events _ => ?_
    exact fitting_isReport low events

/-- A payload of four bytes, cut between two reads, a window size, one dropped by a reset, and a
payload that another command ends. -/
def payloadCalls : List Call :=
  [.read [iac, sb, 24, 0x61, iac], .read [iac, 0x62, 0x63, iac, se, 0x6B],
    .read [iac, sb, windowSize, 0, 80, 0, 24, iac, se, iac, sb, windowSize, 1, 2, 3, 4], .reset,
    .read [iac, sb, 24, 1, 2, 3, 4, 5, iac, 0xFB, 1, 0x31]]

theorem events_fitting_three_four : 3 ≤ 4 ∧
    events { limit := 4 } payloadCalls =
      [[], [.subnegotiation 24 [0x61, iac, 0x62, 0x63], .key (.letter 0x6B)], [.windowSize 80 24],
        [], [.negotiation .will 1, .key (.digit 1)]] ∧
    events { limit := 3 } payloadCalls =
      [[], [.key (.letter 0x6B)], [], [], [.negotiation .will 1, .key (.digit 1)]] ∧
    (after { limit := 3 } payloadCalls).isIdle = (after { limit := 4 } payloadCalls).isIdle ∧
    (events { limit := 3 } payloadCalls).map (List.filter (!·.isReport)) =
      (events { limit := 4 } payloadCalls).map (List.filter (!·.isReport)) ∧
    events { limit := 3 } payloadCalls = (events { limit := 4 } payloadCalls).map (fitting 3) :=
  ⟨by decide, by decide +kernel, by decide +kernel, events_fitting_of_le (by decide) payloadCalls⟩

end Decoder
end RemoteScreen.Telnet
