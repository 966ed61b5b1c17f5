import RemoteScreen.Proofs.Line
import RemoteScreen.Proofs.Screen.Drawn
import RemoteScreen.Proofs.Screen.Style

/-! Drawing a line. The loop stops only at the far end; it gets there, and what it has drawn by then
are the points of the line that are nearest to the straight one. -/

namespace RemoteScreen
namespace Screen
open Line (course point steps penAfter)

variable {s t : Screen} {x₀ y₀ x₁ y₁ : Nat}

/-! ### The course on the grid -/

theorem contains_point (hc₀ : s.Contains x₀ y₀) (hc₁ : s.Contains x₁ y₁) {k : Nat}
    (hk : k ≤ steps x₀ y₀ x₁ y₁) :
    ∃ cx cy : Nat, point x₀ y₀ x₁ y₁ k = (↑cx, ↑cy) ∧ s.Contains cx cy := by
  obtain ⟨⟨hx, hx'⟩, hy, hy'⟩ := Line.point_between hk
  obtain ⟨hwidth₀, hheight₀⟩ := hc₀
  obtain ⟨hwidth₁, hheight₁⟩ := hc₁
  refine ⟨(point x₀ y₀ x₁ y₁ k).1.toNat, (point x₀ y₀ x₁ y₁ k).2.toNat, ?_, ?_, ?_⟩
  · refine Prod.ext ?_ ?_
    · dsimp only
      omega
    · dsimp only
      omega
  · omega
  · omega

/-- The placement of the `k`-th point of a line. -/
def pointPlacement (s : Screen) (x₀ y₀ x₁ y₁ : Nat) (c : Cell) (k : Nat) : Placement :=
  (s.index (point x₀ y₀ x₁ y₁ k).1.toNat (point x₀ y₀ x₁ y₁ k).2.toNat, c)

/-- The screen with a line drawn. -/
def placeLine (s : Screen) (x₀ y₀ x₁ y₁ : Nat) (c : Cell) : Screen :=
  s.paint ((List.range (steps x₀ y₀ x₁ y₁ + 1)).map (s.pointPlacement x₀ y₀ x₁ y₁ c))

theorem drawn_placeLine (hw : WellFormed s) (hc₀ : s.Contains x₀ y₀) (hc₁ : s.Contains x₁ y₁)
    (c : Cell) : Drawn s (s.placeLine x₀ y₀ x₁ y₁ c)
      (fun cx cy => if ((cx : Int), (cy : Int)) ∈ course x₀ y₀ x₁ y₁ then some c else none) := by
  refine drawn_paint hw fun cx cy d hc => ?_
  simp only [List.mem_map, List.mem_range, Nat.lt_succ_iff, course, Option.ite_none_right_eq_some,
    Option.some.injEq]
  constructor
  · rintro ⟨k, hk, hplaced⟩
    obtain ⟨px, py, hpoint, hcp⟩ := contains_point hc₀ hc₁ hk
    simp only [pointPlacement, hpoint, Int.toNat_natCast, Prod.mk.injEq] at hplaced
    obtain ⟨hindex, rfl⟩ := hplaced
    obtain ⟨rfl, rfl⟩ := index_inj hcp hc hindex
    exact ⟨⟨k, hk, hpoint⟩, rfl⟩
  · rintro ⟨⟨k, hk, hpoint⟩, rfl⟩
    refine ⟨k, hk, ?_⟩
    rw [pointPlacement, hpoint]
    rfl

/-! ### The loop -/

/-- Stores a cell at each point from the pen on, up to the goal, which is to come within so many
rounds. -/
def follow? (c : Cell) (m : Line.Slope) (goal : Int × Int) : Nat → Screen → Line.Pen → Option Screen
  | 0, _, _ => none
  | rounds + 1, s, p => do
    let x ← p.x.toNat?
    let y ← p.y.toNat?
    let t ← s.store? (s.index? x y) c
    if (p.x, p.y) = goal then some t else follow? c m goal rounds t (← p.step? m)

/-- Draws a line, as it is computed. A loop that takes more rounds than these has no value. -/
def line? (rounds : Nat) (s : Screen) (x₀ y₀ x₁ y₁ cp : Nat) : Option (Except Fault Screen) :=
  if s.Contains x₀ y₀ then do
    let _ ← s.index? x₀ y₀
    if s.Contains x₁ y₁ then
      let _ ← s.index? x₁ y₁
      let (m, p) ← Line.begin? x₀ y₀ x₁ y₁
      let t ← follow? (s.ink cp) m (↑x₁, ↑y₁) rounds s p
      return .ok t
    else return .error (.cellOutside x₁ y₁ s.width s.height)
  else some (.error (.cellOutside x₀ y₀ s.width s.height))

theorem ends_lt (hw : WellFormed s) (hc₀ : s.Contains x₀ y₀) (hc₁ : s.Contains x₁ y₁) :
    (x₀ < 2 ^ 61 ∧ y₀ < 2 ^ 61) ∧ x₁ < 2 ^ 61 ∧ y₁ < 2 ^ 61 := by
  obtain ⟨hwidth, hheight⟩ := hw.extents_lt hc₀
  obtain ⟨hx₀, hy₀⟩ := hc₀
  obtain ⟨hx₁, hy₁⟩ := hc₁
  omega

/-- A round stores one point, and ends the loop exactly if no step is left. -/
theorem follow?_round (hw : WellFormed s) (hc₀ : s.Contains x₀ y₀) (hc₁ : s.Contains x₁ y₁)
    (c : Cell) {k : Nat} (hk : k ≤ steps x₀ y₀ x₁ y₁) (rounds : Nat) (qs : List Placement) :
    follow? c (.between x₀ y₀ x₁ y₁) (↑x₁, ↑y₁) (rounds + 1) (s.paint qs) (penAfter x₀ y₀ x₁ y₁ k) =
      if k = steps x₀ y₀ x₁ y₁ then some ((s.paint qs).paint [s.pointPlacement x₀ y₀ x₁ y₁ c k])
      else follow? c (.between x₀ y₀ x₁ y₁) (↑x₁, ↑y₁) rounds
        ((s.paint qs).paint [s.pointPlacement x₀ y₀ x₁ y₁ c k]) (penAfter x₀ y₀ x₁ y₁ (k + 1)) := by
  obtain ⟨cx, cy, hpoint, hc⟩ := contains_point hc₀ hc₁ hk
  have hplaced : s.pointPlacement x₀ y₀ x₁ y₁ c k = (s.index cx cy, c) := by
    rw [pointPlacement, hpoint]
    rfl
  obtain ⟨hx, hy⟩ := Prod.mk.inj ((Line.position_penAfter hk).trans hpoint)
  rw [follow?, hplaced]
  simp only [Line.position_eq_end_iff hk]
  rw [hx, hy]
  simp only [Int.toNat?, Option.bind_eq_bind, Option.bind_some, store?_place hw hc]
  split
  next => rfl
  next hnot =>
    rw [Line.step?_penAfter (ends_lt hw hc₀ hc₁) (Nat.lt_of_le_of_ne hk hnot)]
    rfl

theorem follow?_eq (hw : WellFormed s) (hc₀ : s.Contains x₀ y₀) (hc₁ : s.Contains x₁ y₁) (c : Cell)
    {k rest : Nat} (h : k + rest = steps x₀ y₀ x₁ y₁) (rounds : Nat) (qs : List Placement) :
    follow? c (.between x₀ y₀ x₁ y₁) (↑x₁, ↑y₁) rounds (s.paint qs) (penAfter x₀ y₀ x₁ y₁ k) =
      if rest < rounds then
        some ((s.paint qs).paint
          ((List.range' k (rest + 1)).map (s.pointPlacement x₀ y₀ x₁ y₁ c)))
      else none := by
  induction rounds generalizing k rest qs with
  | zero => rfl
  | succ rounds ih =>
    rw [follow?_round hw hc₀ hc₁ c (h ▸ Nat.le_add_right k rest)]
    cases rest with
    | zero =>
      have hlast : k = steps x₀ y₀ x₁ y₁ := h
      rw [if_pos hlast, if_pos (Nat.succ_pos rounds)]
      rfl
    | succ rest =>
      have hnext : k + 1 + rest = steps x₀ y₀ x₁ y₁ := by omega
      rw [if_neg (by omega), ← paint_append, ih hnext, paint_append, ← paint_append,
        List.range'_succ (s := k)]
      simp only [Nat.succ_lt_succ_iff]
      rfl

theorem line_eq (s : Screen) (x₀ y₀ x₁ y₁ cp : Nat) : s.line x₀ y₀ x₁ y₁ cp =
    if s.Contains x₀ y₀ then
      if s.Contains x₁ y₁ then .ok (s.placeLine x₀ y₀ x₁ y₁ (s.ink cp))
      else .error (.cellOutside x₁ y₁ s.width s.height)
    else .error (.cellOutside x₀ y₀ s.width s.height) := by
  unfold line checkCell placeLine
  rw [Line.points_eq, course, List.map_map, List.map_map]
  split
  · split <;> rfl
  · rfl

theorem line?_eq (hw : WellFormed s) (hc₀ : s.Contains x₀ y₀) (hc₁ : s.Contains x₁ y₁)
    (rounds cp : Nat) : line? rounds s x₀ y₀ x₁ y₁ cp =
      if steps x₀ y₀ x₁ y₁ < rounds then some (s.line x₀ y₀ x₁ y₁ cp) else none := by
  have hfollow := follow?_eq hw hc₀ hc₁ (s.ink cp) (Nat.zero_add _) rounds []
  rw [line_eq, line?, if_pos hc₀, if_pos hc₀, if_pos hc₁, if_pos hc₁, index?_eq hw hc₀,
    index?_eq hw hc₁, Line.begin?_eq (ends_lt hw hc₀ hc₁)]
  simp only [Option.bind_eq_bind, Option.bind_some]
  rw [paint_nil] at hfollow
  rw [hfollow, ← List.range_eq_range']
  split <;> rfl

theorem line?_of_not_contains (hw : WellFormed s) (hout : ¬(s.Contains x₀ y₀ ∧ s.Contains x₁ y₁))
    (rounds cp : Nat) : line? rounds s x₀ y₀ x₁ y₁ cp = some (s.line x₀ y₀ x₁ y₁ cp) := by
  rw [line_eq, line?]
  by_cases hc₀ : s.Contains x₀ y₀
  · have hc₁ : ¬s.Contains x₁ y₁ := fun hc₁ => hout ⟨hc₀, hc₁⟩
    rw [if_pos hc₀, if_pos hc₀, if_neg hc₁, if_neg hc₁, index?_eq hw hc₀]
    rfl
  · rw [if_neg hc₀, if_neg hc₀]

/-! ### The line -/

/-- A line is refused, with the screen as it was, exactly if one of its ends is not on the screen.
Otherwise its points show the code point, taken modulo 2^21, in the drawing style, and nothing else
changes: from one end to the other and in the box that they span, each as near to the straight line
as a place can be.
The loop ends with the last of them and takes one round for each, no number in it is too large and
no index out of range, and it comes to the same. -/
theorem line_draws_course_or_refuses (h : Reachable s) (x₀ y₀ x₁ y₁ cp : Nat) :
    ((s.ink cp).style = s.style ∧ (s.ink cp).codePoint = cp % 2 ^ 21) ∧
    (s.Contains x₀ y₀ → s.Contains x₁ y₁ →
      (∃ t, s.line x₀ y₀ x₁ y₁ cp = .ok t ∧ Line.Joins x₀ y₀ x₁ y₁ (course x₀ y₀ x₁ y₁) ∧
        Drawn s t fun cx cy =>
          if ((cx : Int), (cy : Int)) ∈ course x₀ y₀ x₁ y₁ then some (s.ink cp) else none) ∧
      ∀ rounds, line? rounds s x₀ y₀ x₁ y₁ cp =
        if steps x₀ y₀ x₁ y₁ < rounds then some (s.line x₀ y₀ x₁ y₁ cp) else none) ∧
    (¬(s.Contains x₀ y₀ ∧ s.Contains x₁ y₁) →
      s.line x₀ y₀ x₁ y₁ cp = .error (if s.Contains x₀ y₀ then .cellOutside x₁ y₁ s.width s.height
        else .cellOutside x₀ y₀ s.width s.height) ∧
      s.call (.perform (.line x₀ y₀ x₁ y₁ cp)) = ([], s) ∧
      ∀ rounds, line? rounds s x₀ y₀ x₁ y₁ cp = some (s.line x₀ y₀ x₁ y₁ cp)) := by
  have hw := reachable_wellFormed h
  have hline := s.line_eq x₀ y₀ x₁ y₁ cp
  refine ⟨(reachable_styled h).ink cp,
    fun hc₀ hc₁ => ⟨?_, fun rounds => line?_eq hw hc₀ hc₁ rounds cp⟩, fun hout => ?_⟩
  · rw [if_pos hc₀, if_pos hc₁] at hline
    exact ⟨_, hline, Line.course_joins x₀ y₀ x₁ y₁, drawn_placeLine hw hc₀ hc₁ _⟩
  · have herror : s.line x₀ y₀ x₁ y₁ cp = .error (if s.Contains x₀ y₀ then
        .cellOutside x₁ y₁ s.width s.height else .cellOutside x₀ y₀ s.width s.height) := by
      by_cases hc₀ : s.Contains x₀ y₀
      · have hc₁ : ¬s.Contains x₁ y₁ := fun hc₁ => hout ⟨hc₀, hc₁⟩
        rw [hline, if_pos hc₀, if_neg hc₁, if_pos hc₀]
      · rw [hline, if_neg hc₀, if_neg hc₀]
    exact ⟨herror, call_of_error herror, fun rounds => line?_of_not_contains hw hout rounds cp⟩

/-- A line back to the origin, half way between two rows at first; one column on, nothing is drawn.
-/
theorem line_draws_course_backwards : ∃ s t, create 5 3 .defaultStyle = .ok s ∧ s.Contains 4 2 ∧
    s.Contains 0 0 ∧ s.line 4 2 0 0 0x2A = .ok t ∧
    course 4 2 0 0 = [(4, 2), (3, 1), (2, 1), (1, 0), (0, 0)] ∧
    t.get? 3 1 = some (s.ink 0x2A) ∧ (s.ink 0x2A).codePoint = 0x2A ∧ t.get? 3 2 = s.get? 3 2 ∧
    ¬(s.Contains 5 2 ∧ s.Contains 0 0) ∧ s.call (.perform (.line 5 2 0 0 0x2A)) = ([], s) := by
  obtain ⟨s, hnew, hends, hdrawn, hout⟩ : ∃ s, create 5 3 .defaultStyle = .ok s ∧
      (s.Contains 4 2 ∧ s.Contains 0 0) ∧ (s.Contains 3 1 ∧ s.Contains 3 2) ∧
      ¬(s.Contains 5 2 ∧ s.Contains 0 0) :=
    ⟨_, rfl, by decide, by decide, by decide⟩
  obtain ⟨⟨-, hcode⟩, hdraws, -⟩ := line_draws_course_or_refuses (.create hnew) 4 2 0 0 0x2A
  obtain ⟨⟨t, hline, -, hcells⟩, -⟩ := hdraws hends.1 hends.2
  obtain ⟨-, -, hrefuses⟩ := line_draws_course_or_refuses (.create hnew) 5 2 0 0 0x2A
  exact ⟨s, t, hnew, hends.1, hends.2, hline, by decide, hcells.get? 3 1 hdrawn.1,
    hcode, hcells.get? 3 2 hdrawn.2, hout, (hrefuses hout).2.1⟩

end Screen
end RemoteScreen
