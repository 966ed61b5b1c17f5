import RemoteScreen.Proofs.Telnet.Limit
import RemoteScreen.Proofs.Telnet.Reads

/-! The grammar of what a client sends, as a reader that looks ahead: it takes one item after
another off the input, and leaves an item that is incomplete. The decoder reads each item as the
grammar does (`agrees_item`), so it answers the events of the grammar, and is idle where the grammar
leaves nothing. -/

namespace RemoteScreen.Telnet
namespace Grammar

/-! ### Items -/

/-- The key of a character that is no part of a sequence. -/
def key? (b : UInt8) : Option Key :=
  let c := Char.ofNat b.toNat
  if c.isAlpha then some (.letter (.ofNat c.toLower.toNat))
  else if c.isDigit then some (.digit (.ofNat (c.toNat - '0'.toNat)))
  else if c = ' ' then some (.named .space)
  else if b = 0x0D then some (.named .enter)
  else if b = 0x09 then some (.named .tab)
  else if b = 0x7F ∨ b = 0x08 then some (.named .backspace)
  else none

/-- What follows an ESC: the rest of an arrow, or something that is read for itself. -/
def escape? : List UInt8 → Option (List Event × List UInt8)
  | [] => some ([.key (.named .escape)], [])
  | c :: rest =>
    if c ≠ bracket then some ([.key (.named .escape)], c :: rest)
    else match rest with
      | [] => none
      | letter :: rest =>
        match Decoder.arrows.lookup letter with
        | some key => some ([.key (.named key)], rest)
        | none => some ([.key (.named .escape)], letter :: rest)

/-- The body of a subnegotiation, in which every pair of IACs is one, and what follows it: nothing,
or an IAC that begins no pair. -/
def body : List UInt8 → List UInt8 × List UInt8
  | [] => ([], [])
  | [b] => if b = iac then ([], [b]) else ([b], [])
  | b :: c :: rest =>
    if b ≠ iac then (b :: (body (c :: rest)).1, (body (c :: rest)).2)
    else if c = iac then (iac :: (body rest).1, (body rest).2)
    else ([], b :: c :: rest)

/-- What a subnegotiation reports, of an option with a body. -/
def report (limit : Nat) (option : UInt8) (bytes : List UInt8) : List Event :=
  if limit < bytes.length then []
  else if option ≠ windowSize then [.subnegotiation option bytes]
  else match bytes with
    | [w₁, w₀, h₁, h₀] => [.windowSize (wordOfBytes w₁ w₀) (wordOfBytes h₁ h₀)]
    | _ => []

/-- What follows IAC SB. A body that does not end with IAC SE is dropped, and the command at its end
is read for itself. -/
def subnegotiation? (limit : Nat) : List UInt8 → Option (List Event × List UInt8)
  | [] => none
  | option :: rest =>
    match (body rest).2 with
    | i :: c :: after =>
      if c = se then some (report limit option (body rest).1, after) else some ([], i :: c :: after)
    | _ => none

/-- What follows IAC. -/
def command? (limit : Nat) : List UInt8 → Option (List Event × List UInt8)
  | [] => none
  | c :: rest =>
    if c = iac then some ([], rest)
    else if c = sb then subnegotiation? limit rest
    else match Verb.all.find? (·.byte = c), rest with
      | none, _ => some ([.command c], rest)
      | some _, [] => none
      | some verb, option :: rest => some ([.negotiation verb option], rest)

/-- The events of the first item of an input and what follows it, unless the item is incomplete. -/
def item? (limit : Nat) : List UInt8 → Option (List Event × List UInt8)
  | [] => none
  | b :: rest =>
    if b = esc then escape? rest
    else if b = iac then command? limit rest
    else some ((key? b).toList.map .key, rest)

variable {limit : Nat} {input rest : List UInt8} {events : List Event}

theorem length_escape? (h : escape? input = some (events, rest)) : rest.length ≤ input.length := by
  unfold escape? at h
  split at h
  next => cases h; exact Nat.le_refl _
  next c tail =>
    split at h
    next => cases h; exact Nat.le_refl _
    split at h
    next => cases h
    next => split at h <;> cases h <;> simp only [List.length_cons] <;> omega

theorem length_body (bytes : List UInt8) : (body bytes).2.length ≤ bytes.length := by
  fun_induction body bytes <;> simp only [List.length_cons, List.length_nil] at * <;> omega

theorem length_subnegotiation? (h : subnegotiation? limit input = some (events, rest)) :
    rest.length < input.length := by
  unfold subnegotiation? at h
  split at h
  next => cases h
  next option tail =>
    have hbody := length_body tail
    split at h
    next heq =>
      rw [heq, List.length_cons, List.length_cons] at hbody
      split at h <;> cases h <;> simp only [List.length_cons] <;> omega
    next => cases h

theorem length_command? (h : command? limit input = some (events, rest)) :
    rest.length < input.length := by
  unfold command? at h
  split at h
  next => cases h
  next c tail =>
    split at h
    next => cases h; exact Nat.lt_succ_self _
    split at h
    next => exact Nat.lt_succ_of_lt (length_subnegotiation? h)
    split at h <;> cases h <;> simp only [List.length_cons] <;> omega

theorem length_item? (h : item? limit input = some (events, rest)) :
    rest.length < input.length := by
  unfold item? at h
  split at h
  next => cases h
  next b tail =>
    split at h
    next => exact Nat.lt_succ_of_le (length_escape? h)
    split at h
    next => exact Nat.lt_succ_of_lt (length_command? h)
    next => cases h; exact Nat.lt_succ_self _

/-- The events of an input, item after item, and the incomplete item at its end. -/
def read (limit : Nat) (input : List UInt8) : List Event × List UInt8 :=
  match _h : item? limit input with
  | none => ([], input)
  | some (events, rest) => (events ++ (read limit rest).1, (read limit rest).2)
termination_by input.length
decreasing_by all_goals exact length_item? (by assumption)

/-! ### The decoder's tables -/

theorem forall_byte {p : UInt8 → Prop} (h : ∀ n : Fin 256, p (UInt8.ofNat n)) : ∀ b, p b := by
  intro b
  have hb := h ⟨b.toNat, b.toNat_lt⟩
  rwa [UInt8.ofNat_toNat] at hb

theorem key?_eq : ∀ b : UInt8, Decoder.key? b = key? b := by
  apply forall_byte
  decide +kernel

theorem arrowKey?_eq : ∀ b : UInt8, Decoder.arrowKey? b = (Decoder.arrows.lookup b).map .named := by
  apply forall_byte
  decide +kernel

theorem ofByte?_eq : ∀ b : UInt8, Verb.ofByte? b = Verb.all.find? (·.byte = b) := by
  apply forall_byte
  decide +kernel

theorem report_eq (limit : Nat) (option : UInt8) (bytes : List UInt8) :
    report limit option bytes = fitting limit (Event.ofSubnegotiation option bytes).toList := by
  rw [Decoder.fitting_ofSubnegotiation]
  unfold report Event.ofSubnegotiation
  by_cases hlen : bytes.length ≤ limit
  · rw [if_neg (Nat.not_lt_of_le hlen), if_pos hlen]
    by_cases hoption : option = windowSize
    · rw [if_neg (fun hne => hne hoption), if_pos hoption]
      rcases bytes with _ | ⟨w₁, _ | ⟨w₀, _ | ⟨h₁, _ | ⟨h₀, _ | _⟩⟩⟩⟩ <;> rfl
    · rw [if_pos hoption, if_neg hoption]
      rfl
  · rw [if_pos (Nat.lt_of_not_le hlen), if_neg hlen]

/-! ### Items and the decoder -/

open Decoder

/-- What a decoder answers begins with the events of an item and goes on, from the ground, with what
follows the item; an item that is incomplete has no events and leaves the decoder in it. -/
def Agrees (limit : Nat) (answer : List Event × Decoder) : Option (List Event × List UInt8) → Prop
  | some (events, rest) => answer = prepend events (parse ⟨limit, .ground⟩ rest)
  | none => answer.1 = [] ∧ answer.2.isIdle = false

theorem agrees_escape (limit : Nat) (bytes : List UInt8) :
    Agrees limit (parse ⟨limit, .escape⟩ bytes) (escape? bytes) := by
  unfold escape?
  split
  next => rfl
  next c rest =>
    by_cases hc : c = bracket
    · subst hc
      rw [if_neg (fun hne => hne rfl), parse_escape_bracket]
      split
      next => exact ⟨rfl, rfl⟩
      next letter rest =>
        have hkey := arrowKey?_eq letter
        split
        next key heq =>
          rw [heq] at hkey
          rw [parse_cons]
          simp only [step, hkey, Option.map_some]
          rfl
        next heq =>
          rw [heq] at hkey
          exact parse_cons_of_readAfterEscape (step_arrow_of_none hkey)
    · rw [if_pos hc]
      exact parse_cons_of_readAfterEscape (step_escape_of_ne hc)

/-- The decoder goes through the body of a subnegotiation to its end. -/
theorem parse_body (limit : Nat) (option : UInt8) (collected bytes : List UInt8) :
    parse ⟨limit, Mode.under limit (.payload option collected)⟩ bytes =
      parse ⟨limit, Mode.under limit (.payload option (collected ++ (body bytes).1))⟩
        (body bytes).2 := by
  fun_induction body bytes generalizing collected with
  | case1 => rw [List.append_nil]
  | case2 => rw [List.append_nil]
  | case3 b hb =>
    rw [parse_cons, step_payload _ _ _ hb]
    rfl
  | case4 b c rest hb ih =>
    rw [parse_cons, step_payload _ _ _ hb, prepend_nil, ih, List.append_assoc]
    rfl
  | case5 b rest hb ih =>
    rw [Decidable.not_not.mp hb, parse_cons, step_payload_iac, prepend_nil, parse_cons,
      step_payloadCommand_iac, prepend_nil, ih, List.append_assoc]
    rfl
  | case6 b c rest hb hc => rw [List.append_nil]

theorem body_snd (bytes : List UInt8) : (body bytes).2 = [] ∨ (body bytes).2 = [iac] ∨
    ∃ c rest, c ≠ iac ∧ (body bytes).2 = iac :: c :: rest := by
  fun_induction body bytes with
  | case1 => exact Or.inl rfl
  | case2 => exact Or.inr (Or.inl rfl)
  | case3 => exact Or.inl rfl
  | case4 _ _ _ _ ih => exact ih
  | case5 _ _ _ ih => exact ih
  | case6 b c rest hb hc => exact Or.inr (Or.inr ⟨c, rest, hc, by rw [Decidable.not_not.mp hb]⟩)

theorem agrees_subnegotiation (limit : Nat) (bytes : List UInt8) :
    Agrees limit (parse ⟨limit, .subnegotiation⟩ bytes) (subnegotiation? limit bytes) := by
  cases bytes with
  | nil => exact ⟨rfl, rfl⟩
  | cons option bytes =>
    have hopen : step limit .subnegotiation option =
        (Mode.under limit (.payload option []), []) := rfl
    rw [parse_cons, hopen, prepend_nil, parse_body, List.nil_append, subnegotiation?]
    rcases body_snd bytes with hrest | hrest | ⟨c, after, hc, hrest⟩
    · rw [hrest, parse_nil, settle_under]
      exact ⟨rfl, isIdle_under limit ⟨limit, .payload option (body bytes).1⟩⟩
    · rw [hrest, parse_cons, step_payload_iac, prepend_nil, parse_nil, settle_under]
      exact ⟨rfl, isIdle_under limit ⟨limit, .payloadCommand option (body bytes).1⟩⟩
    · rw [hrest, parse_cons, step_payload_iac, prepend_nil, parse_cons]
      by_cases hse : c = se
      · subst hse
        rw [step_payloadCommand_se, ← report_eq]
        rfl
      · -- The grammar goes back to the IAC, and the decoder has it behind it.
        have hback : parse ⟨limit, .ground⟩ (iac :: c :: after) =
            prepend (readCommand c).2 (parse ⟨limit, (readCommand c).1⟩ after) := by
          rw [parse_cons]
          exact parse_cons limit .command c after
        simp only [if_neg hse, Agrees]
        rw [step_payloadCommand _ _ _ hc hse, hback, prepend_nil]

theorem agrees_command (limit : Nat) (bytes : List UInt8) :
    Agrees limit (parse ⟨limit, .command⟩ bytes) (command? limit bytes) := by
  unfold command?
  split
  next => exact ⟨rfl, rfl⟩
  next c rest =>
    rw [parse_cons]
    by_cases hiac : c = iac
    · subst hiac
      rfl
    rw [if_neg hiac]
    by_cases hsb : c = sb
    · subst hsb
      exact agrees_subnegotiation limit rest
    rw [if_neg hsb, ← ofByte?_eq]
    simp only [step, readCommand, if_neg hiac, if_neg hsb]
    cases Verb.ofByte? c with
    | none => rfl
    | some verb =>
      cases rest with
      | nil => exact ⟨rfl, rfl⟩
      | cons option rest => exact parse_cons limit (.option verb) option rest

theorem agrees_item (limit : Nat) (b : UInt8) (rest : List UInt8) :
    Agrees limit (parse ⟨limit, .ground⟩ (b :: rest)) (item? limit (b :: rest)) := by
  rw [item?, parse_cons]
  by_cases hesc : b = esc
  · subst hesc
    exact agrees_escape limit rest
  rw [if_neg hesc]
  by_cases hiac : b = iac
  · subst hiac
    exact agrees_command limit rest
  rw [if_neg hiac]
  simp only [step, readGround, if_neg hesc, if_neg hiac, key?_eq]
  rfl

/-! ### Whole inputs -/

theorem parse_of_item {answer : List Event × List UInt8} (h : item? limit input = some answer) :
    parse ⟨limit, .ground⟩ input = prepend answer.1 (parse ⟨limit, .ground⟩ answer.2) := by
  cases input with
  | nil => cases h
  | cons b rest =>
    have hagrees := agrees_item limit b rest
    rwa [h] at hagrees

/-- A new decoder answers to one read the events of the grammar, and is idle exactly if the grammar
leaves no incomplete item. -/
theorem parse_eq_read (limit : Nat) (input : List UInt8) :
    (({ limit } : Decoder).parse input).1 = (read limit input).1 ∧
      (({ limit } : Decoder).parse input).2.isIdle = (read limit input).2.isEmpty := by
  fun_induction read limit input with
  | case1 input hitem =>
    cases input with
    | nil => exact ⟨rfl, rfl⟩
    | cons b rest =>
      have hagrees := agrees_item limit b rest
      rw [hitem] at hagrees
      exact hagrees
  | case2 input events rest hitem ih =>
    rw [parse_of_item hitem]
    exact ⟨congrArg (events ++ ·) ih.1, ih.2⟩

/-- A subnegotiation that another one ends, and an arrow without its letter. -/
example : read 4 [iac, sb, 24, 1, iac, sb, windowSize, 0, 80, 0, 24, iac, se, esc, bracket] =
    ([.windowSize 80 24], [esc, bracket]) := by
  cbv

end Grammar
end RemoteScreen.Telnet
