import RemoteScreen.Proofs.Screen.Pass

/-! The shape of a screen: both grids have a cell for each place, and the pass and what is known of
the peer point into them. Every call keeps it, refused ones included. -/

namespace RemoteScreen
namespace Screen
open Relation (ReflTransGen)

variable {all : Bool} {capacity used : Nat} {s t u : Screen}

/-- Both grids have a cell for each place, and what points into them is in range. -/
structure WellFormed (s : Screen) : Prop where
  addressable : Addressable s.width s.height
  size_shown : s.shown.size = s.width * s.height
  size_target : s.target.size = s.width * s.height
  position_le : s.position ≤ s.width * s.height
  last_lt : ∀ i, s.peer.last = some i → i < s.width * s.height
  tail_valid : s.tail.Valid

theorem wellFormed_of_create {width height : Nat} {style : Cell}
    (h : create width height style = .ok s) : WellFormed s := by
  obtain ⟨ha, rfl⟩ := create_inv h
  exact ⟨ha, Array.size_replicate, Array.size_replicate, Nat.zero_le _, fun _ hi => (nomatch hi),
    .empty⟩

namespace WellFormed

theorem size_eq (h : WellFormed s) : s.shown.size = s.target.size :=
  h.size_shown.trans h.size_target.symm

/-! ### Edits -/

theorem forgetPeer (h : WellFormed s) : WellFormed s.forgetPeer :=
  { h with last_lt := fun _ hi => nomatch hi }

theorem requestRepaint (h : WellFormed s) : WellFormed s.requestRepaint :=
  { h with position_le := Nat.zero_le _ }

theorem reshape {width height : Nat} (h : WellFormed s) (ha : Addressable width height) :
    WellFormed (s.reshape width height) := by
  unfold Screen.reshape
  split
  · exact h
  · exact ⟨ha, Array.size_replicate, Array.size_ofFn, Nat.zero_le _, fun _ hi => (nomatch hi),
      h.tail_valid⟩

theorem edit (h : WellFormed s) (he : Edit s t) : WellFormed t := by
  cases he with
  | draw hsize => exact { h with size_target := hsize.trans h.size_target }
  | reshape width height ha => exact h.reshape ha
  | requestRepaint => exact h.requestRepaint
  | forgetPeer => exact h.forgetPeer

theorem edits (h : WellFormed s) (he : ReflTransGen Edit s t) : WellFormed t := by
  induction he with
  | refl => exact h
  | tail _ he ih => exact ih.edit he

/-! ### Sending -/

theorem skip (h : WellFormed s) (hp : s.position < s.target.size) :
    WellFormed { s with position := s.position + 1 } :=
  { h with position_le := h.size_target ▸ hp }

theorem advance (h : WellFormed s) (hp : s.position < s.target.size) : WellFormed (s.advance hp) where
  addressable := h.addressable
  size_shown := Array.size_setIfInBounds.trans h.size_shown
  size_target := h.size_target
  position_le := h.size_target ▸ hp
  last_lt i hi := by
    cases hi
    exact h.size_target ▸ hp
  tail_valid := h.tail_valid

theorem setTail (h : WellFormed s) {tail : ByteQueue} (ht : tail.Valid) :
    WellFormed { s with tail } :=
  { h with tail_valid := ht }

theorem sends {es : List Emission} (h : WellFormed s) (hs : Sends all s es t) : WellFormed t := by
  induction hs with
  | done => exact h
  | skip hp _ _ ih => exact ih (h.skip hp)
  | send hp _ _ ih => exact ih (h.advance hp)

theorem endPass (h : WellFormed s) : WellFormed s.endPass :=
  { h with position_le := Nat.zero_le _ }

theorem stop {o : Output} (h : WellFormed u) (hs : Stop all capacity used u o t) : WellFormed t := by
  cases hs with
  | complete => exact h.endPass
  | full => exact h
  | split hp => exact (h.advance hp).setTail (.ofList _)

theorem sendAfter (h : WellFormed s) (capacity start : Nat) :
    WellFormed (s.sendAfter capacity start).2 := by
  rcases s.sendAfter_cases capacity start with ⟨-, heq⟩ | ⟨-, es, u, o, t, hs, ho, heq⟩
  · rw [heq]
    exact h.setTail (h.tail_valid.send _)
  · rw [heq]
    exact ((h.setTail .empty).sends hs).stop ho

theorem finishCell (h : WellFormed s) (capacity : Nat) : WellFormed (s.finishCell capacity).2 :=
  h.setTail (h.tail_valid.send _)

theorem call (h : WellFormed s) (c : Call) : WellFormed (s.call c).2 := by
  rcases s.call_cases c with ⟨t, heq, he⟩ | ⟨capacity, start, -, heq⟩ | ⟨capacity, heq⟩
  · rw [heq]
    exact h.edits he
  · rw [heq]
    exact h.sendAfter capacity start
  · rw [heq]
    exact h.finishCell capacity

end WellFormed

theorem reachable_wellFormed (h : Reachable s) : WellFormed s := by
  induction h with
  | create h => exact wellFormed_of_create h
  | call _ c ih => exact ih.call c

/-! ### Places -/

theorem index_lt {x y : Nat} (hc : s.Contains x y) : s.index x y < s.width * s.height := by
  obtain ⟨hx, hy⟩ := hc
  calc x + y * s.width < s.width + y * s.width := Nat.add_lt_add_right hx _
    _ = s.width * (y + 1) := by rw [Nat.mul_add_one, Nat.mul_comm, Nat.add_comm]
    _ ≤ s.width * s.height := Nat.mul_le_mul_left _ hy

theorem index_mod {x y : Nat} (hc : s.Contains x y) : s.index x y % s.width = x := by
  rw [index, Nat.add_mul_mod_self_right]
  exact Nat.mod_eq_of_lt hc.1

theorem index_div {x y : Nat} (hc : s.Contains x y) : s.index x y / s.width = y := by
  rw [index, Nat.add_mul_div_right _ _ (Nat.zero_lt_of_lt hc.1), Nat.div_eq_of_lt hc.1, Nat.zero_add]

theorem get?_of_contains {x y : Nat} (hc : s.Contains x y) :
    s.get? x y = s.target[s.index x y]? :=
  if_pos hc

end Screen
end RemoteScreen
