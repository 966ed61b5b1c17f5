import RemoteScreen.Proofs.Telnet.Wire

/-! The decoder as a machine with registers. The option and the payload of a subnegotiation stand beside
the state, and they outlive it: an option is never cleared, and whatever ends a payload has to clear
that. Without the stale registers it is the decoder, byte for byte (`step_decoder`). So a machine that
is idle answers whatever follows as a new one does, and a payload stands in its register only within
the body of a subnegotiation (`Sound`). -/

namespace RemoteScreen.Telnet

open Decoder (Call Mode)

/-- What the machine expects next. What it has read stands in the registers, a verb apart. -/
inductive State where
  | ground
  | escape
  | arrow
  | command
  | option (verb : Verb)
  | subnegotiation
  | payload
  | payloadCommand
  | skipped
  | skippedCommand
  deriving DecidableEq, Inhabited

/-- Whether a payload is being collected. -/
def State.InBody : State → Prop
  | payload | payloadCommand => True
  | _ => False

instance (s : State) : Decidable s.InBody :=
  match s with
  | .payload | .payloadCommand => .isTrue trivial
  | .ground | .escape | .arrow | .command | .option _ | .subnegotiation | .skipped
  | .skippedCommand => .isFalse id

/-- The machine: its state, the bound on payloads, and two registers that outlive the state. -/
structure Registers where
  limit : Nat
  state : State := .ground
  /-- The option of the subnegotiation that is collected, or was last. -/
  option : UInt8 := 0
  payload : List UInt8 := []
  deriving DecidableEq, Inhabited

namespace Registers

variable {r : Registers} {limit : Nat}

/-! ### The machine -/

/-- The machine in another state, with its registers as they are. -/
def goto (r : Registers) (state : State) : Registers :=
  { r with state }

/-- Empties the register of the payload. -/
def clearPayload (r : Registers) : Registers :=
  { r with payload := [] }

/-- A byte outside every sequence: it begins one, or is a key or nothing. -/
def readGround (r : Registers) (b : UInt8) : List Event × Registers :=
  if b = esc then ([], r.goto .escape)
  else if b = iac then ([], r.goto .command)
  else ((Decoder.key? b).toList.map .key, r)

/-- A byte that tells the ESC before it to be the escape key. -/
def readAfterEscape (r : Registers) (b : UInt8) : List Event × Registers :=
  let (events, r) := (r.goto .ground).readGround b
  (.key (.named .escape) :: events, r)

/-- A byte behind ESC and a bracket. -/
def readArrow (r : Registers) (b : UInt8) : List Event × Registers :=
  match Decoder.arrowKey? b with
  | some key => ([.key key], r.goto .ground)
  | none => r.readAfterEscape b

/-- A byte behind an IAC. -/
def readCommand (r : Registers) (b : UInt8) : List Event × Registers :=
  if b = iac then ([], r.goto .ground)
  else if b = sb then ([], r.goto .subnegotiation)
  else match Verb.ofByte? b with
    | some verb => ([], r.goto (.option verb))
    | none => ([.command b], r.goto .ground)

/-- Adds a byte to the payload. If that is as long as it may be, it is dropped and its rest skipped.
-/
def collect (r : Registers) (b : UInt8) : Registers :=
  if r.limit ≤ r.payload.length then r.clearPayload.goto .skipped
  else { r with payload := r.payload ++ [b] }

/-- Takes the payload out of its register and reports it. -/
def finish (r : Registers) : List Event × Registers :=
  ((Event.ofSubnegotiation r.option r.payload).toList, r.clearPayload)

/-- What a byte reports, and the machine after it. -/
def step (r : Registers) (b : UInt8) : List Event × Registers :=
  match r.state with
  | .ground => r.readGround b
  | .escape => if b = bracket then ([], r.goto .arrow) else r.readAfterEscape b
  | .arrow => r.readArrow b
  | .command => r.readCommand b
  | .option verb => ([.negotiation verb b], r.goto .ground)
  | .subnegotiation => ([], { r with option := b, payload := [], state := .payload })
  | .payload => if b = iac then ([], r.goto .payloadCommand) else ([], r.collect b)
  | .payloadCommand =>
    if b = iac then ([], (r.goto .payload).collect iac)
    else if b = se then (r.goto .ground).finish
    else r.clearPayload.readCommand b
  | .skipped => if b = iac then ([], r.goto .skippedCommand) else ([], r)
  | .skippedCommand =>
    if b = se then ([], r.goto .ground)
    else if b = iac then ([], r.goto .skipped)
    else r.readCommand b

/-- What some bytes report one after another, and the machine after them. -/
def steps (r : Registers) : List UInt8 → List Event × Registers
  | [] => ([], r)
  | b :: bytes => ((r.step b).1 ++ ((r.step b).2.steps bytes).1, ((r.step b).2.steps bytes).2)

/-- The end of a read. -/
def settle (r : Registers) : List Event × Registers :=
  if r.state = .escape then ([.key (.named .escape)], r.goto .ground) else ([], r)

/-- What one read reports, and the machine after it. -/
def parse (r : Registers) (bytes : List UInt8) : List Event × Registers :=
  ((r.steps bytes).1 ++ (r.steps bytes).2.settle.1, (r.steps bytes).2.settle.2)

/-- Drops an incomplete sequence. The option stays in its register. -/
def reset (r : Registers) : Registers :=
  (r.goto .ground).clearPayload

/-- Whether no sequence is incomplete. -/
def isIdle (r : Registers) : Bool :=
  r.state = .ground

/-- What a call answers, and the machine after it. -/
def call (r : Registers) : Call → List Event × Registers
  | .read bytes => r.parse bytes
  | .reset => ([], r.reset)

/-- What each of some calls answers. -/
def events (r : Registers) : List Call → List (List Event)
  | [] => []
  | k :: ks => (r.call k).1 :: events (r.call k).2 ks

/-- The machine after some calls. -/
def after (r : Registers) : List Call → Registers
  | [] => r
  | k :: ks => after (r.call k).2 ks

/-! ### What the registers stand for -/

/-- The mode that the registers are in. Outside a payload their rest is stale. -/
def mode (r : Registers) : Mode :=
  match r.state with
  | .ground => .ground
  | .escape => .escape
  | .arrow => .arrow
  | .command => .command
  | .option verb => .option verb
  | .subnegotiation => .subnegotiation
  | .payload => .payload r.option r.payload
  | .payloadCommand => .payloadCommand r.option r.payload
  | .skipped => .skipped
  | .skippedCommand => .skippedCommand

/-- The decoder without stale registers. -/
def decoder (r : Registers) : Decoder :=
  ⟨r.limit, r.mode⟩

/-- An answer of the machine, as one of the decoder. -/
def seen (answer : List Event × Registers) : List Event × Decoder :=
  (answer.1, answer.2.decoder)

/-- A step of the decoder, as an answer of it. -/
def stepped (limit : Nat) (next : Mode × List Event) : List Event × Decoder :=
  (next.2, ⟨limit, next.1⟩)

theorem readGround_decoder (h : r.state = .ground) (b : UInt8) :
    seen (r.readGround b) = stepped r.limit (Decoder.readGround b) := by
  unfold readGround Decoder.readGround
  split
  · rfl
  split
  · rfl
  · simp only [seen, stepped, decoder, mode, h]

theorem readAfterEscape_decoder (r : Registers) (b : UInt8) :
    seen (r.readAfterEscape b) = stepped r.limit (Decoder.readAfterEscape b) := by
  have hground := readGround_decoder (r := r.goto .ground) rfl b
  have hevents := congrArg (fun answer => Event.key (.named .escape) :: answer.1) hground
  have hnext := congrArg Prod.snd hground
  exact Prod.ext hevents hnext

theorem readArrow_decoder (r : Registers) (b : UInt8) :
    seen (r.readArrow b) = stepped r.limit (Decoder.step r.limit .arrow b) := by
  simp only [readArrow, Decoder.step]
  cases Decoder.arrowKey? b with
  | some key => rfl
  | none => exact r.readAfterEscape_decoder b

theorem readCommand_decoder (r : Registers) (b : UInt8) :
    seen (r.readCommand b) = stepped r.limit (Decoder.readCommand b) := by
  unfold readCommand Decoder.readCommand
  split
  · rfl
  split
  · rfl
  · cases Verb.ofByte? b <;> rfl

theorem collect_decoder (h : r.state = .payload) (b : UInt8) :
    (r.collect b).decoder = ⟨r.limit, Decoder.collect r.limit r.option r.payload b⟩ := by
  unfold collect Decoder.collect
  by_cases hfull : r.limit ≤ r.payload.length
  · rw [if_pos hfull, if_neg (Nat.not_lt_of_le hfull)]
    rfl
  · rw [if_neg hfull, if_pos (Nat.lt_of_not_le hfull)]
    simp only [decoder, mode, h]

/-- A byte does to the registers what it does to the decoder, whatever is stale in them. -/
theorem step_decoder (r : Registers) (b : UInt8) :
    seen (r.step b) = stepped r.limit (Decoder.step r.limit r.mode b) := by
  -- The registers are read only in a body, where the mode holds them; before one, the option is set
  -- and the payload emptied, so nothing stale is left when they come to be read.
  obtain ⟨limit, state, option, payload⟩ := r
  cases state with
  | ground => exact readGround_decoder rfl b
  | escape =>
    simp only [step, mode, Decoder.step]
    split
    · rfl
    · exact readAfterEscape_decoder _ b
  | arrow => exact readArrow_decoder _ b
  | command => exact readCommand_decoder _ b
  | option verb => rfl
  | subnegotiation => rfl
  | payload =>
    simp only [step, mode, Decoder.step]
    split
    · rfl
    · exact congrArg (Prod.mk []) (collect_decoder rfl b)
  | payloadCommand =>
    simp only [step, mode, Decoder.step]
    split
    next hiac =>
      rw [hiac]
      exact congrArg (Prod.mk []) (collect_decoder rfl iac)
    split
    · rfl
    · exact readCommand_decoder _ b
  | skipped =>
    simp only [step, mode, Decoder.step]
    split <;> rfl
  | skippedCommand =>
    simp only [step, mode, Decoder.step]
    by_cases hiac : b = iac
    · rw [if_pos hiac, hiac]
      rfl
    rw [if_neg hiac, if_neg hiac]
    split
    · rfl
    · exact readCommand_decoder _ b

theorem parse_cons (r : Registers) (b : UInt8) (bytes : List UInt8) :
    r.parse (b :: bytes) =
      ((r.step b).1 ++ ((r.step b).2.parse bytes).1, ((r.step b).2.parse bytes).2) := by
  simp only [parse, steps, List.append_assoc]

theorem parse_decoder (r : Registers) (bytes : List UInt8) :
    seen (r.parse bytes) = r.decoder.parse bytes := by
  induction bytes generalizing r with
  | nil =>
    obtain ⟨limit, state, option, payload⟩ := r
    cases state <;> rfl
  | cons b bytes ih =>
    have hstep := r.step_decoder b
    have hnext : (r.step b).2.decoder = ⟨r.limit, (Decoder.step r.limit r.mode b).1⟩ :=
      congrArg Prod.snd hstep
    have hevents : (r.step b).1 = (Decoder.step r.limit r.mode b).2 := congrArg Prod.fst hstep
    have hrest := ih (r.step b).2
    rw [hnext] at hrest
    rw [decoder, Decoder.parse_cons, ← hrest, ← hevents, parse_cons]
    rfl

theorem call_decoder (r : Registers) (k : Call) : seen (r.call k) = r.decoder.call k := by
  cases k with
  | read bytes => exact r.parse_decoder bytes
  | reset => rfl

theorem events_decoder (r : Registers) (ks : List Call) : r.events ks = r.decoder.events ks := by
  induction ks generalizing r with
  | nil => rfl
  | cons k ks ih => rw [events, Decoder.events_cons, ih, ← call_decoder]; rfl

theorem after_decoder (r : Registers) (ks : List Call) :
    (r.after ks).decoder = r.decoder.after ks := by
  induction ks generalizing r with
  | nil => rfl
  | cons k ks ih => rw [after, Decoder.after_cons, ih, ← call_decoder]; rfl

theorem isIdle_decoder (r : Registers) : r.decoder.isIdle = r.isIdle := by
  obtain ⟨limit, state, option, payload⟩ := r
  cases state <;> rfl

theorem decoder_of_isIdle (h : r.isIdle = true) : r.decoder = ⟨r.limit, .ground⟩ := by
  rw [← isIdle_decoder] at h
  exact congrArg (Decoder.mk r.limit) (of_decide_eq_true h)

/-! ### Payloads -/

/-- A payload is within the limit, and stands in its register only where it is collected. -/
structure Sound (limit : Nat) (r : Registers) : Prop where
  limit_eq : r.limit = limit
  length_le : r.payload.length ≤ limit
  inBody : r.payload ≠ [] → r.state.InBody

theorem readGround_frame (r : Registers) (b : UInt8) : ∃ s, (r.readGround b).2 = r.goto s := by
  unfold readGround
  split
  · exact ⟨_, rfl⟩
  split
  · exact ⟨_, rfl⟩
  · exact ⟨r.state, rfl⟩

theorem readAfterEscape_frame (r : Registers) (b : UInt8) :
    ∃ s, (r.readAfterEscape b).2 = r.goto s := by
  obtain ⟨s, hs⟩ := (r.goto .ground).readGround_frame b
  exact ⟨s, hs⟩

theorem readArrow_frame (r : Registers) (b : UInt8) : ∃ s, (r.readArrow b).2 = r.goto s := by
  unfold readArrow
  split
  · exact ⟨_, rfl⟩
  · exact r.readAfterEscape_frame b

theorem readCommand_frame (r : Registers) (b : UInt8) : ∃ s, (r.readCommand b).2 = r.goto s := by
  unfold readCommand
  split
  · exact ⟨_, rfl⟩
  split
  · exact ⟨_, rfl⟩
  split <;> exact ⟨_, rfl⟩

namespace Sound

theorem new (limit : Nat) : Sound limit { limit } :=
  ⟨rfl, Nat.zero_le _, fun h => absurd rfl h⟩

theorem of_nil (hlimit : r.limit = limit) (h : r.payload = []) : Sound limit r := by
  refine ⟨hlimit, ?_, fun hne => absurd h hne⟩
  rw [h]
  exact Nat.zero_le _

theorem payload_eq (h : Sound limit r) {s : State} (hstate : r.state = s) (hs : ¬s.InBody) :
    r.payload = [] :=
  Decidable.not_not.mp (mt h.inBody (hstate ▸ hs))

theorem frame {next : Registers} (h : Sound limit r) (hpayload : r.payload = [])
    (hnext : ∃ s, next = r.goto s) : Sound limit next := by
  obtain ⟨s, rfl⟩ := hnext
  exact .of_nil h.limit_eq hpayload

theorem clearPayload (h : Sound limit r) : Sound limit r.clearPayload :=
  .of_nil h.limit_eq rfl

theorem collect (h : Sound limit r) (hstate : r.state = .payload) (b : UInt8) :
    Sound limit (r.collect b) := by
  unfold Registers.collect
  split
  · exact .of_nil h.limit_eq rfl
  next hroom =>
    refine ⟨h.limit_eq, ?_, fun _ => ?_⟩
    · rw [List.length_append, ← h.limit_eq]
      exact Nat.lt_of_not_le hroom
    · show r.state.InBody
      rw [hstate]
      trivial

theorem step (h : Sound limit r) (b : UInt8) : Sound limit (r.step b).2 := by
  -- Outside a body the payload is empty, and whatever is read there leaves it alone; a byte that ends
  -- a body empties it.
  unfold Registers.step
  split
  next hstate => exact h.frame (h.payload_eq hstate id) (r.readGround_frame b)
  next hstate =>
    have hnil := h.payload_eq hstate id
    split
    · exact h.frame hnil ⟨_, rfl⟩
    · exact h.frame hnil (r.readAfterEscape_frame b)
  next hstate => exact h.frame (h.payload_eq hstate id) (r.readArrow_frame b)
  next hstate => exact h.frame (h.payload_eq hstate id) (r.readCommand_frame b)
  next hstate => exact h.frame (h.payload_eq hstate id) ⟨_, rfl⟩
  next => exact .of_nil h.limit_eq rfl
  next hstate =>
    split
    · exact ⟨h.limit_eq, h.length_le, fun _ => trivial⟩
    · exact h.collect hstate b
  next hstate =>
    have hpayload : Sound limit (r.goto .payload) := ⟨h.limit_eq, h.length_le, fun _ => trivial⟩
    split
    · exact hpayload.collect rfl iac
    split
    · exact .of_nil h.limit_eq rfl
    · exact h.clearPayload.frame rfl (r.clearPayload.readCommand_frame b)
  next hstate =>
    split
    · exact h.frame (h.payload_eq hstate id) ⟨_, rfl⟩
    · exact h
  next hstate =>
    have hnil := h.payload_eq hstate id
    split
    · exact h.frame hnil ⟨_, rfl⟩
    split
    · exact h.frame hnil ⟨_, rfl⟩
    · exact h.frame hnil (r.readCommand_frame b)

theorem steps (h : Sound limit r) (bytes : List UInt8) : Sound limit (r.steps bytes).2 := by
  induction bytes generalizing r with
  | nil => exact h
  | cons b bytes ih => exact ih (h.step b)

theorem call (h : Sound limit r) (k : Call) : Sound limit (r.call k).2 := by
  cases k with
  | read bytes =>
    have hread := h.steps bytes
    simp only [Registers.call, parse, settle]
    split
    next hescape => exact hread.frame (hread.payload_eq hescape id) ⟨_, rfl⟩
    next => exact hread
  | reset => exact .of_nil h.limit_eq rfl

theorem after (h : Sound limit r) (ks : List Call) : Sound limit (r.after ks) := by
  induction ks generalizing r with
  | nil => exact h
  | cons k ks ih => exact ih (h.call k)

end Sound

/-- No call ends within the keys that an ESC may begin. -/
theorem state_call (r : Registers) (k : Call) : (r.call k).2.state ≠ .escape := by
  cases k with
  | read bytes =>
    simp only [call, parse, settle]
    split
    · exact nofun
    next hescape => exact hescape
  | reset => exact nofun

theorem state_after (h : r.state ≠ .escape) (ks : List Call) : (r.after ks).state ≠ .escape := by
  induction ks generalizing r with
  | nil => exact h
  | cons k ks ih => exact ih (r.state_call k)

/-! ### Idle machines -/

theorem events_of_isIdle (h : r.isIdle = true) (ks : List Call) :
    r.events ks = ({ limit := r.limit } : Registers).events ks := by
  rw [events_decoder, decoder_of_isIdle h, events_decoder]
  rfl

/-- Whatever calls a machine has taken, it answers what the decoder answers, and stands for the
decoder as it is then. Also amid a read its payload is within the limit, and empty unless one is being
collected; and no call ends within the keys that an ESC may begin. A machine that is idle, and any
machine after a reset, answers all calls to come as a new one with its limit does. It is idle again
behind a subnegotiation that ends, be the payload reported, too long or malformed; and of one that
another command cuts off it keeps nothing but that command. -/
theorem idle_registers_hide_nothing (limit : Nat) (before : List Call) :
    let new : Registers := { limit }
    let r := new.after before
    (new.events before = Decoder.events { limit } before ∧
      r.decoder = Decoder.after { limit } before) ∧
    (∀ bytes : List UInt8, Sound limit (r.steps bytes).2) ∧ r.state ≠ .escape ∧
    (r.isIdle = true → ∀ ks : List Call, r.events ks = new.events ks) ∧
    (∀ ks : List Call, r.reset.events ks = new.events ks) ∧
    (r.isIdle = true → ∀ (option : UInt8) (payload : List UInt8),
      (r.parse (subnegotiation option payload)).2.isIdle = true ∧
      ∀ (c : UInt8) (rest : List UInt8), c ≠ iac → c ≠ se →
        seen (r.parse ([iac, sb, option] ++ double payload ++ iac :: c :: rest)) =
          seen (new.parse (iac :: c :: rest))) := by
  intro new r
  have hsound : Sound limit r := (Sound.new limit).after before
  have hreset : r.reset.limit = limit := hsound.limit_eq
  refine ⟨⟨new.events_decoder before, new.after_decoder before⟩, hsound.steps,
    state_after (r := new) nofun before, fun hidle ks => ?_, fun ks => ?_,
    fun hidle option payload => ⟨?_, fun c rest hiac hse => ?_⟩⟩
  · rw [events_of_isIdle hidle, hsound.limit_eq]
  · rw [events_of_isIdle (r := r.reset) rfl, hreset]
  · rw [← isIdle_decoder]
    show (seen (r.parse (subnegotiation option payload))).2.isIdle = true
    rw [parse_decoder, decoder_of_isIdle hidle, Decoder.parse_subnegotiation]
    rfl
  · rw [parse_decoder, parse_decoder, decoder_of_isIdle hidle, hsound.limit_eq,
      Decoder.parse_cut_subnegotiation limit option payload hiac hse rest]
    rfl

/-- One payload is too long, another one is cut off by a command, and their option stays behind. -/
def staleReads : List Call :=
  [.read [iac, sb, 0x18, 1, 2], .read [3, 4, iac], .read [se, 0x61, iac, sb, 0x18, 5],
    .read [iac, 0xF1, esc]]

theorem idle_registers_hide_nothing_stale :
    let new : Registers := { limit := 2 }
    let r := new.after staleReads
    r.option = 0x18 ∧ r.isIdle = true ∧ r.payload = [] ∧
      new.events staleReads =
        [[], [], [.key (.letter 0x61)], [.command 0xF1, .key (.named .escape)]] ∧
      r.events [.read (subnegotiation 5 [9, iac]), .reset, .read [0x31]] =
        [[.subnegotiation 5 [9, iac]], [], [.key (.digit 1)]] := by
  intro new r
  obtain ⟨⟨hevents, -⟩, hsound, -, hsame, -⟩ := idle_registers_hide_nothing 2 staleReads
  have hidle : r.isIdle = true := by decide +kernel
  have hpayload : r.payload = [] := (hsound []).payload_eq (of_decide_eq_true hidle) id
  exact ⟨by decide +kernel, hidle, hpayload, hevents.trans (by decide +kernel),
    (hsame hidle _).trans (by decide +kernel)⟩

end Registers
end RemoteScreen.Telnet
