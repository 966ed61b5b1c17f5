import RemoteScreen.Proofs.Telnet.Grammar

/-! The wire form of events, which the decoder reads back. In front of anything that a bracket does
not begin, the wire form of an event is one item of the grammar (`item?_wire`), so events in a row
keep apart. Conversely a decoder reports nothing that has no wire form. -/

namespace RemoteScreen.Telnet

/-! ### Wire forms -/

/-- A backspace is DEL or BS, as the client's terminal is set. -/
def NamedKey.wire (del : Bool) : NamedKey → List UInt8
  | .space => [0x20]
  | .enter => [0x0D]
  | .escape => [esc]
  | .up => [esc, bracket, 0x41]
  | .down => [esc, bracket, 0x42]
  | .left => [esc, bracket, 0x44]
  | .right => [esc, bracket, 0x43]
  | .tab => [0x09]
  | .backspace => [if del then 0x7F else 0x08]

/-- The bytes that a client sends for a key. -/
def Key.wire (del : Bool) : Key → List UInt8
  | .named k => k.wire del
  | .letter b => [b]
  | .digit v => [v + 0x30]

/-- A payload with its IACs doubled. -/
def double (payload : List UInt8) : List UInt8 :=
  payload.flatMap fun b => if b = iac then [iac, iac] else [b]

/-- The bytes of a subnegotiation. -/
def subnegotiation (option : UInt8) (payload : List UInt8) : List UInt8 :=
  [iac, sb, option] ++ double payload ++ [iac, se]

/-- The bytes of a word, the more significant one first. -/
def bytesOfWord (w : UInt16) : List UInt8 :=
  [.ofNat (w.toNat / 0x100), .ofNat (w.toNat % 0x100)]

theorem wordOfBytes_bytesOfWord (w : UInt16) :
    wordOfBytes (.ofNat (w.toNat / 0x100)) (.ofNat (w.toNat % 0x100)) = w := by
  have hw : w.toNat < 0x10000 := w.toNat_lt
  have hvalue : w.toNat / 0x100 % 0x100 * 0x100 + w.toNat % 0x100 % 0x100 = w.toNat := by omega
  rw [wordOfBytes, UInt8.toNat_ofNat', UInt8.toNat_ofNat', hvalue, UInt16.ofNat_toNat]

/-- The bytes that a client sends for an event. -/
def Event.wire (del : Bool) : Event → List UInt8
  | .key k => k.wire del
  | .negotiation verb option => verb.command option
  | .windowSize width height =>
    Telnet.subnegotiation Telnet.windowSize (bytesOfWord width ++ bytesOfWord height)
  | .subnegotiation option payload => Telnet.subnegotiation option payload
  | .command b => [iac, b]

/-- Whether the event is what its wire form says. -/
def Event.Canonical : Event → Prop
  | .key (.letter b) => 0x61 ≤ b ∧ b ≤ 0x7A
  | .key (.digit v) => v ≤ 9
  | .subnegotiation option _ => option ≠ Telnet.windowSize
  | .command b => b < 0xFA
  | _ => True

instance : ∀ e : Event, Decidable e.Canonical
  | .key (.letter b) => inferInstanceAs (Decidable (0x61 ≤ b ∧ b ≤ 0x7A))
  | .key (.digit v) => inferInstanceAs (Decidable (v ≤ 9))
  | .subnegotiation option _ => inferInstanceAs (Decidable (option ≠ Telnet.windowSize))
  | .command b => inferInstanceAs (Decidable (b < 0xFA))
  | .key (.named _) | .negotiation _ _ | .windowSize _ _ => .isTrue trivial

/-- Whether a decoder with the limit reads the event from its wire form. -/
def Event.Expressible (limit : Nat) (e : Event) : Prop :=
  e.Canonical ∧ e.Fits limit

instance (limit : Nat) (e : Event) : Decidable (e.Expressible limit) :=
  inferInstanceAs (Decidable (_ ∧ _))

namespace Grammar

variable {limit : Nat} {rest : List UInt8} {b c : UInt8} {e : Event}

theorem body_cons (hb : b ≠ iac) (bytes : List UInt8) :
    body (b :: bytes) = (b :: (body bytes).1, (body bytes).2) := by
  cases bytes with
  | nil => simp only [body, if_neg hb]
  | cons c rest => simp only [body, if_pos hb]

theorem body_double (hc : c ≠ iac) (payload rest : List UInt8) :
    body (double payload ++ iac :: c :: rest) = (payload, iac :: c :: rest) := by
  induction payload with
  | nil =>
    rw [double, List.flatMap_nil, List.nil_append, body, if_neg (fun h => h rfl), if_neg hc]
  | cons b payload ih =>
    rw [double, List.flatMap_cons, ← double, List.append_assoc]
    by_cases hb : b = iac
    · rw [if_pos hb, hb, List.cons_append, List.cons_append, List.nil_append, body,
        if_neg (fun h => h rfl), if_pos rfl, ih]
    · rw [if_neg hb, List.cons_append, List.nil_append, body_cons hb, ih]

theorem item?_subnegotiation (limit : Nat) (option : UInt8) (payload rest : List UInt8) :
    item? limit (subnegotiation option payload ++ rest) =
      some (report limit option payload, rest) := by
  have hbody : body (double payload ++ [iac, se] ++ rest) = (payload, iac :: se :: rest) := by
    rw [List.append_assoc]
    exact body_double (by decide) payload rest
  have hitem : item? limit (subnegotiation option payload ++ rest) =
      subnegotiation? limit (option :: (double payload ++ [iac, se] ++ rest)) := by
    simp only [subnegotiation, List.append_assoc]
    rfl
  rw [hitem, subnegotiation?, hbody]
  rfl

theorem report_windowSize (h : 4 ≤ limit) (width height : UInt16) :
    report limit windowSize (bytesOfWord width ++ bytesOfWord height) =
      [.windowSize width height] := by
  have hlength : ¬limit < (bytesOfWord width ++ bytesOfWord height).length := Nat.not_lt_of_le h
  unfold report
  rw [if_neg hlength, if_neg (fun hne => hne rfl)]
  simp only [bytesOfWord, List.cons_append, List.nil_append, wordOfBytes_bytesOfWord]

theorem item?_letter (hlow : 0x61 ≤ b) (hhigh : b ≤ 0x7A) (rest : List UInt8) :
    item? limit (b :: rest) = some ([.key (.letter b)], rest) := by
  have hall : ∀ b : UInt8, 0x61 ≤ b → b ≤ 0x7A →
      b ≠ esc ∧ b ≠ iac ∧ key? b = some (.letter b) := by
    apply forall_byte
    decide +kernel
  obtain ⟨hesc, hiac, hkey⟩ := hall b hlow hhigh
  rw [item?, if_neg hesc, if_neg hiac, hkey]
  rfl

theorem item?_digit (h : b ≤ 9) (rest : List UInt8) :
    item? limit ((b + 0x30) :: rest) = some ([.key (.digit b)], rest) := by
  have hall : ∀ b : UInt8, b ≤ 9 →
      b + 0x30 ≠ esc ∧ b + 0x30 ≠ iac ∧ key? (b + 0x30) = some (.digit b) := by
    apply forall_byte
    decide +kernel
  obtain ⟨hesc, hiac, hkey⟩ := hall b h
  rw [item?, if_neg hesc, if_neg hiac, hkey]
  rfl

theorem item?_command (h : b < 0xFA) (rest : List UInt8) :
    item? limit (iac :: b :: rest) = some ([.command b], rest) := by
  have hall : ∀ b : UInt8, b < 0xFA →
      b ≠ iac ∧ b ≠ sb ∧ Verb.all.find? (·.byte = b) = none := by
    apply forall_byte
    decide +kernel
  obtain ⟨hiac, hsb, hverb⟩ := hall b h
  show command? limit (b :: rest) = _
  simp only [command?, if_neg hiac, if_neg hsb, hverb]

theorem item?_escape (h : rest.head? ≠ some bracket) :
    item? limit (esc :: rest) = some ([.key (.named .escape)], rest) := by
  show escape? rest = _
  cases rest with
  | nil => rfl
  | cons c rest =>
    have hc : c ≠ bracket := fun heq => h (congrArg some heq)
    exact if_pos hc

/-- The wire form of an event is an item, whatever follows it but a bracket. -/
theorem item?_wire (del : Bool) (he : e.Expressible limit) (hrest : rest.head? ≠ some bracket) :
    item? limit (e.wire del ++ rest) = some ([e], rest) := by
  obtain ⟨hcanonical, hfits⟩ := he
  cases e with
  | key k =>
    cases k with
    | named k =>
      cases k with
      | escape => exact item?_escape hrest
      | backspace => cases del <;> rfl
      | _ => rfl
    | letter b => exact item?_letter hcanonical.1 hcanonical.2 rest
    | digit v => exact item?_digit hcanonical rest
  | negotiation verb option => cases verb <;> rfl
  | windowSize width height =>
    exact (item?_subnegotiation limit _ _ rest).trans
      (congrArg (fun es => some (es, rest)) (report_windowSize hfits width height))
  | subnegotiation option payload =>
    have hoption : option ≠ windowSize := hcanonical
    have hreport : report limit option payload = [.subnegotiation option payload] := by
      unfold report
      rw [if_neg (Nat.not_lt_of_le hfits), if_pos hoption]
    rw [← hreport]
    exact item?_subnegotiation limit option payload rest
  | command b => exact item?_command hcanonical rest

theorem head?_wire (del : Bool) (he : e.Canonical) : (e.wire del).head? ≠ some bracket := by
  cases e with
  | key k =>
    cases k with
    | named k => cases k <;> cases del <;> decide
    | letter b =>
      intro heq
      cases heq
      exact absurd he.1 (by decide)
    | digit v =>
      have hall : ∀ v : UInt8, v ≤ 9 → v + 0x30 ≠ bracket := by
        apply forall_byte
        decide +kernel
      exact fun heq => hall v he (Option.some.inj heq)
  | _ => exact fun heq => absurd (Option.some.inj heq) (by decide)

theorem head?_flatMap_wire (del : Bool) {events : List Event} (h : ∀ e ∈ events, e.Canonical) :
    (events.flatMap (·.wire del)).head? ≠ some bracket := by
  induction events with
  | nil => exact nofun
  | cons e events ih =>
    rw [List.flatMap_cons, List.head?_append]
    intro heq
    rcases Option.or_eq_some_iff.mp heq with hfirst | ⟨-, hrest⟩
    · exact head?_wire del (h e List.mem_cons_self) hfirst
    · exact ih (fun e' he' => h e' (List.mem_cons_of_mem e he')) hrest

end Grammar

namespace Decoder
open Grammar

variable {limit : Nat} {mode : Mode} {b : UInt8} {e : Event} {bytes : List UInt8}

theorem parse_flatMap_wire (del : Bool) {es : List Event} (h : ∀ e ∈ es, e.Expressible limit) :
    parse { limit } (es.flatMap (·.wire del)) = (es, { limit }) := by
  induction es with
  | nil => rfl
  | cons e es ih =>
    have hes : ∀ e' ∈ es, e'.Expressible limit := fun e' he' => h e' (List.mem_cons_of_mem e he')
    have hitem : item? limit (e.wire del ++ es.flatMap (·.wire del)) = some ([e], _) :=
      item?_wire del (h e List.mem_cons_self) (head?_flatMap_wire del fun e' he' => (hes e' he').1)
    rw [List.flatMap_cons, parse_of_item hitem, ih hes]
    rfl

theorem parse_subnegotiation (limit : Nat) (option : UInt8) (payload : List UInt8) :
    parse ⟨limit, .ground⟩ (subnegotiation option payload) =
      (Grammar.report limit option payload, ⟨limit, .ground⟩) := by
  have hitem := Grammar.item?_subnegotiation limit option payload []
  rw [List.append_nil] at hitem
  rw [Grammar.parse_of_item hitem, parse_nil, settle_of_ne (by decide), prepend, List.append_nil]

/-- Of a subnegotiation that another command cuts off, nothing but that command is left. -/
theorem parse_cut_subnegotiation (limit : Nat) (option : UInt8) (payload : List UInt8) {c : UInt8}
    (hiac : c ≠ iac) (hse : c ≠ se) (rest : List UInt8) :
    parse ⟨limit, .ground⟩ ([iac, sb, option] ++ double payload ++ iac :: c :: rest) =
      parse ⟨limit, .ground⟩ (iac :: c :: rest) := by
  have hitem : item? limit ([iac, sb, option] ++ double payload ++ iac :: c :: rest) =
      subnegotiation? limit (option :: (double payload ++ iac :: c :: rest)) := rfl
  rw [subnegotiation?, body_double hiac] at hitem
  simp only [if_neg hse] at hitem
  rw [parse_of_item hitem, prepend_nil]

/-! ### What is reported -/

theorem canonical_readGround : ∀ b : UInt8, ∀ e ∈ (readGround b).2, e.Canonical := by
  apply forall_byte
  decide +kernel

theorem canonical_readCommand : ∀ b : UInt8, ∀ e ∈ (readCommand b).2, e.Canonical := by
  apply forall_byte
  decide +kernel

theorem canonical_readAfterEscape (he : e ∈ (readAfterEscape b).2) : e.Canonical := by
  rcases List.mem_cons.mp he with rfl | he
  · trivial
  · exact canonical_readGround b e he

theorem canonical_ofSubnegotiation {option : UInt8} {payload : List UInt8}
    (he : e ∈ (Event.ofSubnegotiation option payload).toList) : e.Canonical := by
  unfold Event.ofSubnegotiation at he
  split at he
  next =>
    split at he
    next =>
      cases List.mem_singleton.mp he
      trivial
    next => cases he
  next hoption =>
    cases List.mem_singleton.mp he
    exact hoption

theorem canonical_step (he : e ∈ (step limit mode b).2) : e.Canonical := by
  cases mode with
  | ground => exact canonical_readGround b e he
  | escape =>
    simp only [step] at he
    split at he
    next => cases he
    next => exact canonical_readAfterEscape he
  | arrow =>
    simp only [step] at he
    split at he
    next key hkey =>
      rw [arrowKey?_eq] at hkey
      obtain ⟨name, -, rfl⟩ := Option.map_eq_some_iff.mp hkey
      cases List.mem_singleton.mp he
      trivial
    next => exact canonical_readAfterEscape he
  | command => exact canonical_readCommand b e he
  | option verb =>
    cases List.mem_singleton.mp he
    trivial
  | subnegotiation => cases he
  | payload option bytes =>
    simp only [step] at he
    split at he <;> cases he
  | payloadCommand option bytes =>
    simp only [step] at he
    split at he
    next => cases he
    split at he
    next => exact canonical_ofSubnegotiation he
    next => exact canonical_readCommand b e he
  | skipped =>
    simp only [step] at he
    split at he <;> cases he
  | skippedCommand =>
    simp only [step] at he
    split at he
    next => cases he
    split at he
    next => cases he
    next => exact canonical_readCommand b e he

theorem canonical_parse (he : e ∈ (parse ⟨limit, mode⟩ bytes).1) : e.Canonical := by
  induction bytes generalizing mode with
  | nil =>
    cases mode with
    | escape =>
      cases List.mem_singleton.mp he
      trivial
    | _ => cases he
  | cons b bytes ih =>
    rw [parse_cons] at he
    rcases List.mem_append.mp he with hstep | hrest
    · exact canonical_step hstep
    · exact ih hrest

theorem canonical_events {d : Decoder} {ks : List Call} {es : List Event} (hes : es ∈ d.events ks)
    (he : e ∈ es) : e.Canonical := by
  induction ks generalizing d with
  | nil => cases hes
  | cons k ks ih =>
    rcases List.mem_cons.mp hes with rfl | hes
    · cases k with
      | read bytes => exact canonical_parse he
      | reset => cases he
    · exact ih hes

/-- A new decoder is what it is under its own limit, and so is all that it answers. -/
theorem fits_events {ks : List Call} {es : List Event} (hes : es ∈ events { limit } ks)
    (he : e ∈ es) : e.Fits limit := by
  obtain ⟨hevents, -⟩ := run_under (d := { limit }) (Nat.le_refl limit) ks
  have hsame : events { limit } ks = (events { limit } ks).map (fitting limit) := hevents
  rw [hsame] at hes
  obtain ⟨es', -, rfl⟩ := List.mem_map.mp hes
  exact of_decide_eq_true (List.mem_filter.mp he).2

/-- A new decoder reads the wire forms of events back as these events, and is idle then, if the
letters and digits among them are such, the commands have no operand, and the payloads are no longer
than the limit and named after their option. And whatever a decoder reports in any calls is of this
kind, so its wire forms are read back. -/
theorem parse_wire_of_expressible (limit : Nat) (del : Bool) :
    (∀ es : List Event, (∀ e ∈ es, e.Expressible limit) →
      parse { limit } (es.flatMap (·.wire del)) = (es, { limit })) ∧
    ∀ ks : List Call, (∀ e ∈ (events { limit } ks).flatten, e.Expressible limit) ∧
      parse { limit } ((events { limit } ks).flatten.flatMap (·.wire del)) =
        ((events { limit } ks).flatten, { limit }) := by
  refine ⟨fun es => parse_flatMap_wire del, fun ks => ?_⟩
  have hall : ∀ e ∈ (events { limit } ks).flatten, e.Expressible limit := by
    intro e he
    obtain ⟨es, hes, he⟩ := List.mem_flatten.mp he
    exact ⟨canonical_events hes he, fits_events hes he⟩
  exact ⟨hall, parse_flatMap_wire del hall⟩

/-- Escape keys before arrows, and payloads at the limit that hold the bytes of commands. -/
def mixedEvents : List Event :=
  [.key (.named .escape), .key (.named .up), .subnegotiation 0xFF [0xFF, 0xF0, 0x1B, 0x5B],
    .key (.named .escape), .key (.letter 0x61), .windowSize 0xFFFF 0x50, .command 0xF0,
    .negotiation .forbid 0xFF, .key (.digit 9), .key (.named .backspace)]

theorem parse_wire_of_mixedEvents :
    (∀ e ∈ mixedEvents, e.Expressible 4) ∧
      parse { limit := 4 } (mixedEvents.flatMap (·.wire true)) = (mixedEvents, { limit := 4 }) := by
  have hall : ∀ e ∈ mixedEvents, e.Expressible 4 := by decide
  exact ⟨hall, (parse_wire_of_expressible 4 true).1 mixedEvents hall⟩

end Decoder
end RemoteScreen.Telnet
