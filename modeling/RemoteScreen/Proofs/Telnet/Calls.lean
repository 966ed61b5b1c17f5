import RemoteScreen.Telnet.Decoder

/-! The calls that a decoder takes, and what one read does byte by byte: its first byte, and then a
read of the others from the mode behind it (`parse_cons`). -/

namespace RemoteScreen.Telnet
namespace Decoder

variable {limit : Nat} {mode : Mode} {a : List UInt8}

/-- What can be done with a decoder. -/
inductive Call where
  | read (bytes : List UInt8)
  | reset
  deriving DecidableEq, Inhabited

/-- What a call answers, and the decoder after it. -/
def call (d : Decoder) : Call → List Event × Decoder
  | .read bytes => d.parse bytes
  | .reset => ([], d.reset)

/-- What each of some calls answers. -/
def events (d : Decoder) : List Call → List (List Event)
  | [] => []
  | k :: ks => (d.call k).1 :: events (d.call k).2 ks

/-- The decoder after some calls. -/
def after (d : Decoder) : List Call → Decoder
  | [] => d
  | k :: ks => after (d.call k).2 ks

theorem events_cons (d : Decoder) (k : Call) (ks : List Call) :
    d.events (k :: ks) = (d.call k).1 :: (d.call k).2.events ks := rfl

theorem after_cons (d : Decoder) (k : Call) (ks : List Call) :
    d.after (k :: ks) = (d.call k).2.after ks := rfl

/-! ### One read -/

/-- An answer with some events before its own. -/
def prepend (events : List Event) (answer : List Event × Decoder) : List Event × Decoder :=
  (events ++ answer.1, answer.2)

@[simp] theorem prepend_nil (answer : List Event × Decoder) : prepend [] answer = answer := rfl

@[simp] theorem prepend_prepend (es fs : List Event) (answer : List Event × Decoder) :
    prepend es (prepend fs answer) = prepend (es ++ fs) answer := by
  simp [prepend]

theorem prepend_inj {es : List Event} {answer answer' : List Event × Decoder} :
    prepend es answer = prepend es answer' ↔ answer = answer' := by
  simp [prepend, Prod.ext_iff]

theorem parse_nil (limit : Nat) (mode : Mode) :
    parse ⟨limit, mode⟩ [] = ((settle mode).2, ⟨limit, (settle mode).1⟩) := rfl

theorem parse_append (limit : Nat) (mode : Mode) (a b : List UInt8) :
    parse ⟨limit, mode⟩ (a ++ b) =
      prepend (run limit mode a).2.toList (parse ⟨limit, (run limit mode a).1⟩ b) := by
  simp only [parse, run_append, prepend, Array.toList_append, List.append_assoc]

theorem parse_cons (limit : Nat) (mode : Mode) (b : UInt8) (bytes : List UInt8) :
    parse ⟨limit, mode⟩ (b :: bytes) =
      prepend (step limit mode b).2 (parse ⟨limit, (step limit mode b).1⟩ bytes) := by
  simp only [parse, run_cons, prepend, Array.toList_append, List.append_assoc]

theorem settle_of_ne (h : mode ≠ .escape) : settle mode = (mode, []) := by
  unfold settle
  split
  next => exact absurd rfl h
  next => rfl

/-- A read that completes its last sequence, or leaves it incomplete without an ESC at the end. -/
theorem parse_of_ne_escape (h : (run limit mode a).1 ≠ .escape) :
    parse ⟨limit, mode⟩ a = ((run limit mode a).2.toList, ⟨limit, (run limit mode a).1⟩) := by
  simp only [parse, settle_of_ne h, List.append_nil]

/-- A read that ends with an ESC. -/
theorem parse_of_eq_escape (h : (run limit mode a).1 = .escape) :
    parse ⟨limit, mode⟩ a =
      ((run limit mode a).2.toList ++ [.key (.named .escape)], ⟨limit, .ground⟩) := by
  simp only [parse, h, settle]

end Decoder
end RemoteScreen.Telnet
