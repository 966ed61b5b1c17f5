import RemoteScreen.Proofs.Screen.WellFormed

/-! The cells that a pass has yet to send (`due`), and what a part of a pass leaves: behind it every
cell is shown as it should, and no cell before it has changed (`Sends.shown_eq`). -/

namespace RemoteScreen
namespace Screen

variable {all : Bool} {capacity start used : Nat} {s t u : Screen} {es : List Emission}

/-- Whether a pass sends the cell at index `i`. -/
def isDue (s : Screen) (i : Nat) : Bool :=
  s.forcing || decide (s.shown[i]? ≠ s.target[i]?)

/-- The cells that the running pass has yet to send, in order. -/
def due (s : Screen) : List Placement :=
  ((s.target.toList.zipIdx.drop s.position).filter fun p => s.isDue p.2).map Prod.swap

theorem isDue_position : s.isDue s.position = true ↔ Due s.forcing s := by
  rw [isDue, Bool.or_eq_true, decide_eq_true_eq, Due]

theorem isDue_advance (h : s.position < s.target.size) {i : Nat} (hi : s.position ≠ i) :
    (s.advance h).isDue i = s.isDue i := by
  have hshown : (s.advance h).shown[i]? = s.shown[i]? := Array.getElem?_setIfInBounds_ne hi
  rw [isDue, hshown]
  rfl

/-! ### Members -/

theorem mem_drop_zipIdx {α : Type} {l : List α} {n : Nat} {p : α × Nat} :
    p ∈ l.zipIdx.drop n ↔ n ≤ p.2 ∧ l[p.2]? = some p.1 := by
  obtain ⟨x, i⟩ := p
  rw [List.mem_iff_getElem?]
  simp only [List.getElem?_drop, List.getElem?_zipIdx, Option.map_eq_some_iff, Prod.mk.injEq]
  constructor
  · rintro ⟨k, y, hy, rfl, hi⟩
    obtain rfl : n + k = i := by omega
    exact ⟨Nat.le_add_right n k, hy⟩
  · rintro ⟨hle, hx⟩
    refine ⟨i - n, x, ?_, rfl, by omega⟩
    rwa [Nat.add_sub_cancel' hle]

theorem mem_due {i : Nat} {c : Cell} :
    (i, c) ∈ s.due ↔ s.position ≤ i ∧ s.target[i]? = some c ∧ s.isDue i = true := by
  simp only [due, List.mem_map, List.mem_filter, mem_drop_zipIdx, Array.getElem?_toList]
  constructor
  · rintro ⟨p, ⟨⟨hle, hcell⟩, hdue⟩, heq⟩
    cases heq
    exact ⟨hle, hcell, hdue⟩
  · rintro ⟨hle, hcell, hdue⟩
    exact ⟨(c, i), ⟨⟨hle, hcell⟩, hdue⟩, rfl⟩

theorem due_of_le (h : s.target.size ≤ s.position) : s.due = [] := by
  rw [due, List.drop_eq_nil_of_le, List.filter_nil, List.map_nil]
  rwa [List.length_zipIdx, Array.length_toList]

theorem drop_zipIdx_eq_cons (h : s.position < s.target.size) :
    s.target.toList.zipIdx.drop s.position =
      (s.target[s.position], s.position) :: s.target.toList.zipIdx.drop (s.position + 1) := by
  have hlength : s.position < s.target.toList.zipIdx.length := by
    rwa [List.length_zipIdx, Array.length_toList]
  rw [List.drop_eq_getElem_cons hlength, List.getElem_zipIdx, Nat.zero_add, Array.getElem_toList]

theorem due_of_due (h : s.position < s.target.size) (hd : Due s.forcing s) :
    s.due = (s.position, s.target[s.position]) :: due { s with position := s.position + 1 } := by
  rw [due, drop_zipIdx_eq_cons h, List.filter_cons, if_pos (isDue_position.mpr hd)]
  rfl

theorem due_of_not_due (h : s.position < s.target.size) (hd : ¬Due s.forcing s) :
    s.due = due { s with position := s.position + 1 } := by
  rw [due, drop_zipIdx_eq_cons h, List.filter_cons, if_neg fun hfirst => hd (isDue_position.mp hfirst)]
  rfl

/-- Sending a cell changes nothing for those behind it. -/
theorem due_advance (h : s.position < s.target.size) :
    (s.advance h).due = due { s with position := s.position + 1 } := by
  refine congrArg (List.map Prod.swap) (List.filter_congr fun p hp => ?_)
  obtain ⟨hle, -⟩ := mem_drop_zipIdx.mp hp
  exact isDue_advance h (Nat.ne_of_lt hle)

/-! ### Parts of a pass -/

theorem ite_passed {α : Type} {p q i : Nat} (h : p < q) (x y : α) :
    (if p + 1 ≤ i ∧ i < q then x else if i = p then x else y) = if p ≤ i ∧ i < q then x else y := by
  by_cases hi : i = p
  · subst hi
    simp [h]
  · have hle : p + 1 ≤ i ↔ p ≤ i := by omega
    simp [hi, hle]

theorem shown_advance (h : s.position < s.target.size) (hsize : s.shown.size = s.target.size)
    (i : Nat) :
    (s.advance h).shown[i]? = if i = s.position then s.target[i]? else s.shown[i]? := by
  split
  next hi =>
    subst hi
    rw [Array.getElem?_eq_getElem h]
    exact Array.getElem?_setIfInBounds_self_of_lt (hsize ▸ h)
  next hi => exact Array.getElem?_setIfInBounds_ne (Ne.symm hi)

theorem Sends.shown_eq (h : Sends all s es u) (hsize : s.shown.size = s.target.size) (i : Nat) :
    u.shown[i]? = if s.position ≤ i ∧ i < u.position then s.target[i]? else s.shown[i]? := by
  induction h with
  | done s => rw [if_neg fun hi => Nat.not_lt_of_le hi.1 hi.2]
  | @skip s u es hp hd hs ih =>
    have hsame : s.shown[i]? = if i = s.position then s.target[i]? else s.shown[i]? := by
      split
      next hi => exact hi ▸ Decidable.not_not.mp fun hne => hd (Or.inr hne)
      next => rfl
    refine (ih hsize).trans (Eq.trans ?_ (ite_passed hs.position_le s.target[i]? s.shown[i]?))
    rw [← hsame]
  | @send s u es hp hd hs ih =>
    rw [ih (Array.size_setIfInBounds.trans hsize), shown_advance hp hsize]
    exact ite_passed hs.position_le _ _

/-- At the end of a pass every cell from its start on is shown as it should. -/
theorem Sends.shown_eq_of_end (h : Sends all s es u) (hu : u.target.size ≤ u.position)
    (hsize : s.shown.size = s.target.size) (i : Nat) :
    u.shown[i]? = if s.position ≤ i then s.target[i]? else s.shown[i]? := by
  have hend : s.target.size ≤ u.position := h.target_eq ▸ hu
  rw [h.shown_eq hsize]
  by_cases hi : i < u.position
  · simp only [hi, and_true]
  · have hbeyond : s.target.size ≤ i := Nat.le_trans hend (Nat.le_of_not_lt hi)
    rw [if_neg fun h => hi h.2, Array.getElem?_eq_none (hsize ▸ hbeyond),
      Array.getElem?_eq_none hbeyond, ite_self]

/-! ### Room -/

/-- A pass stays within its buffer. -/
theorem length_pass_le {out : Array UInt8} (h : start + out.size ≤ capacity) :
    start + (pass all capacity start s out).1.bytes.length ≤ capacity := by
  fun_induction pass all capacity start s out with
  | case1 s out _ i next _ ih => exact ih h
  | case2 s out _ i next _ bytes used hfits ih =>
    refine ih ?_
    rwa [← Array.length_toList, Array.toList_appendList, List.length_append, ← Nat.add_assoc]
  | case3 s out _ i next _ bytes used _ hsplit split =>
    simp only [Bool.and_eq_true, decide_eq_true_eq] at hsplit
    obtain ⟨hused, -⟩ := hsplit
    have hstart : start = 0 := Nat.eq_zero_of_add_eq_zero_right hused
    rw [hstart, Nat.zero_add]
    exact List.length_take_le _ _
  | case4 s out => exact h
  | case5 s out => exact h

theorem length_sendAfter_le (s : Screen) (h : start ≤ capacity) :
    start + (s.sendAfter capacity start).1.bytes.length ≤ capacity := by
  have htail : (s.finishCell (capacity - start)).1.bytes.length ≤ capacity - start :=
    List.length_take_le _ _
  unfold sendAfter
  dsimp only
  split
  · exact Nat.add_le_of_le_sub' h htail
  · exact length_pass_le (Nat.add_le_of_le_sub' h htail)

end Screen
end RemoteScreen
