import Mathlib.Data.List.Nodup
import Mathlib.Tactic.Linarith
import Mathlib.Tactic.Ring
import RemoteScreen.Screen.Line

/-! The points of a line. After `k` steps the pen is `k` places on along the larger extent of the
line and, along the other, at the place that is nearest to the straight line (`point`). The error
that decides where it steps follows from the two offsets, so each step keeps this; the pen meets the
end of the line after as many steps as the larger extent has, and not before. -/

namespace RemoteScreen
namespace Line

variable {e f n k : Nat}

/-! ### Rounding -/

/-- The `k`-th part of an extent `e` of which there are `n`, rounded to the nearest number, halves
up. -/
def offset (e n k : Nat) : Nat :=
  (2 * e * k + n) / (2 * n)

theorem offset_le_iff (hn : 0 < n) {i : Nat} : i ≤ offset e n k ↔ 2 * n * i ≤ 2 * e * k + n := by
  rw [offset, Nat.le_div_iff_mul_le (by omega), Nat.mul_comm]

theorem lt_offset_succ (hn : 0 < n) : 2 * e * k + n < 2 * n * (offset e n k + 1) :=
  Nat.lt_mul_div_succ _ (by omega)

theorem offset_unique (hn : 0 < n) {i : Nat} (hle : 2 * n * i ≤ 2 * e * k + n)
    (hlt : 2 * e * k + n < 2 * n * (i + 1)) : offset e n k = i := by
  refine Nat.le_antisymm (Nat.le_of_lt_succ ?_) ((offset_le_iff hn).mpr hle)
  exact Nat.div_lt_of_lt_mul hlt

theorem offset_zero (e n : Nat) : offset e n 0 = 0 := by
  cases n with
  | zero => exact Nat.div_zero _
  | succ n => exact offset_unique (Nat.succ_pos n) (by omega) (by omega)

theorem offset_self (hn : 0 < n) : offset n n k = k := by
  refine offset_unique hn (Nat.le_add_right _ _) ?_
  rw [Nat.mul_add_one]
  omega

theorem offset_last (hle : e ≤ n) : offset e n n = e := by
  rcases Nat.eq_zero_or_pos n with rfl | hn
  · obtain rfl : e = 0 := Nat.le_zero.mp hle
    rfl
  · refine offset_unique hn ?_ ?_
    · rw [Nat.mul_right_comm]
      exact Nat.le_add_right _ _
    · rw [Nat.mul_right_comm, Nat.mul_add_one]
      omega

theorem offset_le (hle : k ≤ n) : offset e n k ≤ e := by
  rcases Nat.eq_zero_or_pos n with rfl | hn
  · obtain rfl : k = 0 := Nat.le_zero.mp hle
    exact (offset_zero e 0).trans_le (Nat.zero_le e)
  · refine Nat.le_of_lt_succ (Nat.div_lt_of_lt_mul ?_)
    have hpart : 2 * e * k ≤ 2 * e * n := Nat.mul_le_mul_left _ hle
    calc 2 * e * k + n < 2 * e * n + 2 * n := by omega
      _ = 2 * n * (e + 1) := by ring

/-- An offset grows by one at most, exactly where the next number is the nearer one. -/
theorem offset_succ (hn : 0 < n) (hle : e ≤ n) (k : Nat) : offset e n (k + 1) =
    if 2 * n * (offset e n k + 1) ≤ 2 * e * (k + 1) + n then offset e n k + 1
    else offset e n k := by
  have hlower : 2 * n * offset e n k ≤ 2 * e * k + n := (offset_le_iff hn).mp (Nat.le_refl _)
  have hupper : 2 * e * k + n < 2 * n * (offset e n k + 1) := lt_offset_succ hn
  have hpart : 2 * e * (k + 1) = 2 * e * k + 2 * e := Nat.mul_add_one _ _
  have hgrown : 2 * n * (offset e n k + 1 + 1) = 2 * n * (offset e n k + 1) + 2 * n :=
    Nat.mul_add_one _ _
  split
  next h => exact offset_unique hn h (by omega)
  next h => exact offset_unique hn (by omega) (Nat.lt_of_not_le h)

/-- Comparing the two offsets decides whether one of them grows. -/
theorem grows_iff (hn : 0 < n) (hmax : n = max e f) :
    2 * f * (offset e n k + 1) ≤ 2 * e * (offset f n k + 1) + f ↔
      2 * n * (offset e n k + 1) ≤ 2 * e * (k + 1) + n := by
  rcases Nat.le_total e f with hle | hle
  · obtain rfl : n = f := hmax.trans (Nat.max_eq_right hle)
    rw [offset_self hn]
  · obtain rfl : n = e := hmax.trans (Nat.max_eq_left hle)
    have hupper : 2 * f * k + n < 2 * n * (offset f n k + 1) := lt_offset_succ hn
    rw [offset_self hn, Nat.mul_add_one]
    exact iff_of_true (by omega) (Nat.le_add_right _ _)

theorem offset_step (hn : 0 < n) (hmax : n = max e f) (k : Nat) : offset e n (k + 1) =
    if 2 * f * (offset e n k + 1) ≤ 2 * e * (offset f n k + 1) + f then offset e n k + 1
    else offset e n k := by
  rw [offset_succ hn (hmax ▸ Nat.le_max_left e f)]
  simp only [grows_iff hn hmax]

theorem offsets_near (hn : 0 < n) (hmax : n = max e f) :
    2 * e * (offset f n k + 1) ≤ 2 * f * (offset e n k + 1) + 3 * n := by
  rcases Nat.le_total e f with hle | hle
  · obtain rfl : n = f := hmax.trans (Nat.max_eq_right hle)
    have hupper : 2 * e * k + n < 2 * n * (offset e n k + 1) := lt_offset_succ hn
    rw [offset_self hn, Nat.mul_add_one]
    omega
  · obtain rfl : n = e := hmax.trans (Nat.max_eq_left hle)
    have hlower : 2 * n * offset f n k ≤ 2 * f * k + n := (offset_le_iff hn).mp (Nat.le_refl _)
    rw [offset_self hn, Nat.mul_add_one, Nat.mul_add_one]
    omega

/-! ### Points -/

/-- How far two coordinates are apart. -/
def extent (a b : Nat) : Nat :=
  ((b : Int) - a).natAbs

/-- The coordinate that is `i` places from `a` in the direction of `b`. -/
def along (a b i : Nat) : Int :=
  a + ((b : Int) - a).sign * i

/-- The number of steps of a line. -/
def steps (x₀ y₀ x₁ y₁ : Nat) : Nat :=
  max (extent x₀ x₁) (extent y₀ y₁)

/-- The point of a line after `k` steps: `k` places on along its larger extent, and as many along
the other as are nearest to the straight line. -/
def point (x₀ y₀ x₁ y₁ k : Nat) : Int × Int :=
  let a := extent x₀ x₁
  let b := extent y₀ y₁
  if b ≤ a then (along x₀ x₁ k, along y₀ y₁ (offset b a k))
  else (along x₀ x₁ (offset a b k), along y₀ y₁ k)

/-- All points of a line. -/
def course (x₀ y₀ x₁ y₁ : Nat) : List (Int × Int) :=
  (List.range (steps x₀ y₀ x₁ y₁ + 1)).map (point x₀ y₀ x₁ y₁)

variable {a b i j x₀ y₀ x₁ y₁ : Nat}

theorem along_zero (a b : Nat) : along a b 0 = a := by
  simp [along]

theorem along_of_lt (h : a < b) (i : Nat) : along a b i = a + i := by
  rw [along, Int.sign_eq_one_of_pos (by omega), one_mul]

theorem along_of_gt (h : b < a) (i : Nat) : along a b i = a - i := by
  rw [along, Int.sign_eq_neg_one_of_neg (by omega)]
  omega

theorem along_extent (a b : Nat) : along a b (extent a b) = b := by
  rw [along, extent, Int.sign_mul_natAbs]
  omega

theorem extent_pos : 0 < extent a b ↔ a ≠ b := by
  unfold extent
  omega

theorem along_inj (hpos : 0 < extent a b) (h : along a b i = along a b j) : i = j := by
  rcases Nat.lt_or_gt_of_ne (extent_pos.mp hpos) with hlt | hgt
  · rw [along_of_lt hlt, along_of_lt hlt] at h
    omega
  · rw [along_of_gt hgt, along_of_gt hgt] at h
    omega

theorem along_succ (hpos : 0 < extent a b) (i : Nat) :
    along a b i + direction a b = along a b (i + 1) := by
  rcases Nat.lt_or_gt_of_ne (extent_pos.mp hpos) with hlt | hgt
  · rw [along_of_lt hlt, along_of_lt hlt, direction, if_pos (by omega)]
    omega
  · rw [along_of_gt hgt, along_of_gt hgt, direction, if_neg (by omega)]
    omega

theorem along_between (hi : i ≤ extent a b) :
    (min a b : Nat) ≤ along a b i ∧ along a b i ≤ (max a b : Nat) := by
  unfold extent at hi
  rcases Nat.lt_trichotomy a b with hlt | rfl | hgt
  · rw [along_of_lt hlt]
    omega
  · obtain rfl : i = 0 := by omega
    rw [along_zero]
    omega
  · rw [along_of_gt hgt]
    omega

/-! ### The pen -/

/-- The pen after `k` steps of a line. -/
def penAfter (x₀ y₀ x₁ y₁ k : Nat) : Pen :=
  let a := extent x₀ x₁
  let b := extent y₀ y₁
  let i := offset a (max a b) k
  let j := offset b (max a b) k
  ⟨along x₀ x₁ i, along y₀ y₁ j, a * (j + 1) - b * (i + 1)⟩

theorem between_eq (x₀ y₀ x₁ y₁ : Nat) : Slope.between x₀ y₀ x₁ y₁ =
    ⟨extent x₀ x₁, -extent y₀ y₁, direction x₀ x₁, direction y₀ y₁⟩ := rfl

theorem penAfter_zero (x₀ y₀ x₁ y₁ : Nat) :
    penAfter x₀ y₀ x₁ y₁ 0 = (Slope.between x₀ y₀ x₁ y₁).start x₀ y₀ := by
  rw [penAfter, between_eq, Slope.start, Pen.mk.injEq, offset_zero, offset_zero]
  refine ⟨along_zero x₀ x₁, along_zero y₀ y₁, ?_⟩
  push_cast
  ring

theorem position_penAfter (hk : k ≤ steps x₀ y₀ x₁ y₁) :
    ((penAfter x₀ y₀ x₁ y₁ k).x, (penAfter x₀ y₀ x₁ y₁ k).y) = point x₀ y₀ x₁ y₁ k := by
  have hself : ∀ n, steps x₀ y₀ x₁ y₁ = n → offset n n k = k := by
    intro n hn
    rcases Nat.eq_zero_or_pos n with rfl | hpos
    · obtain rfl : k = 0 := Nat.le_zero.mp (hn ▸ hk)
      exact offset_zero 0 0
    · exact offset_self hpos
  unfold point
  dsimp only [penAfter]
  split
  next hle =>
    have hmax : max (extent x₀ x₁) (extent y₀ y₁) = extent x₀ x₁ := Nat.max_eq_left hle
    rw [hmax, hself _ hmax]
  next hgt =>
    have hmax : max (extent x₀ x₁) (extent y₀ y₁) = extent y₀ y₁ :=
      Nat.max_eq_right (Nat.le_of_not_le hgt)
    rw [hmax, hself _ hmax]

/-- The pen steps along x exactly where the offset along x grows. -/
theorem dy_le_iff (e f i j : Nat) : -(f : Int) ≤ 2 * (e * (j + 1) - f * (i + 1)) ↔
    2 * f * (i + 1) ≤ 2 * e * (j + 1) + f := by
  rw [← Int.ofNat_le]
  push_cast
  constructor <;> intro h <;> linarith

theorem le_dx_iff (e f i j : Nat) : 2 * ((e : Int) * (j + 1) - f * (i + 1)) ≤ e ↔
    2 * e * (j + 1) ≤ 2 * f * (i + 1) + e := by
  rw [← Int.ofNat_le]
  push_cast
  constructor <;> intro h <;> linarith

theorem step_penAfter (hk : k < steps x₀ y₀ x₁ y₁) :
    (penAfter x₀ y₀ x₁ y₁ k).step (Slope.between x₀ y₀ x₁ y₁) = penAfter x₀ y₀ x₁ y₁ (k + 1) := by
  have hpos : 0 < max (extent x₀ x₁) (extent y₀ y₁) := Nat.zero_lt_of_lt hk
  have hi := offset_step hpos rfl k
  have hj := offset_step hpos (Nat.max_comm (extent x₀ x₁) (extent y₀ y₁)) k
  -- An offset that grows is at most the extent, so the line has one.
  have hcols := (offset_le (e := extent x₀ x₁) (Nat.succ_le_of_lt hk)).trans' (le_of_eq hi.symm)
  have hrows := (offset_le (e := extent y₀ y₁) (Nat.succ_le_of_lt hk)).trans' (le_of_eq hj.symm)
  simp only [penAfter, between_eq, Pen.step, dy_le_iff, le_dx_iff, hi, hj]
  split_ifs at hcols hrows ⊢ with hy hx hx
  · rw [Pen.mk.injEq]
    refine ⟨along_succ (Nat.zero_lt_of_lt hcols) _, along_succ (Nat.zero_lt_of_lt hrows) _, ?_⟩
    push_cast
    ring
  · rw [Pen.mk.injEq]
    refine ⟨rfl, along_succ (Nat.zero_lt_of_lt hrows) _, ?_⟩
    push_cast
    ring
  · rw [Pen.mk.injEq]
    refine ⟨along_succ (Nat.zero_lt_of_lt hcols) _, rfl, ?_⟩
    push_cast
    ring
  · rfl

/-! ### The course -/

theorem point_zero (x₀ y₀ x₁ y₁ : Nat) : point x₀ y₀ x₁ y₁ 0 = (↑x₀, ↑y₀) := by
  unfold point
  dsimp only
  rw [offset_zero, offset_zero, along_zero, along_zero, ite_self]

theorem point_steps (x₀ y₀ x₁ y₁ : Nat) :
    point x₀ y₀ x₁ y₁ (steps x₀ y₀ x₁ y₁) = (↑x₁, ↑y₁) := by
  rw [← position_penAfter (Nat.le_refl _), penAfter, steps, offset_last (Nat.le_max_left _ _),
    offset_last (Nat.le_max_right _ _), along_extent, along_extent]

theorem point_inj (hj : j ≤ steps x₀ y₀ x₁ y₁) (hk : k ≤ steps x₀ y₀ x₁ y₁)
    (h : point x₀ y₀ x₁ y₁ j = point x₀ y₀ x₁ y₁ k) : j = k := by
  rcases Nat.eq_zero_or_pos (steps x₀ y₀ x₁ y₁) with hzero | hpos
  · omega
  unfold point at h
  dsimp only at h
  split at h
  next hle => exact along_inj (Nat.max_eq_left hle ▸ hpos) (congrArg Prod.fst h)
  next hgt =>
    exact along_inj (Nat.max_eq_right (Nat.le_of_not_le hgt) ▸ hpos) (congrArg Prod.snd h)

/-- The point lies in the box that the ends of a line span. -/
def Between (x₀ y₀ x₁ y₁ : Nat) (p : Int × Int) : Prop :=
  ((min x₀ x₁ : Nat) ≤ p.1 ∧ p.1 ≤ (max x₀ x₁ : Nat)) ∧
    (min y₀ y₁ : Nat) ≤ p.2 ∧ p.2 ≤ (max y₀ y₁ : Nat)

theorem point_between (hk : k ≤ steps x₀ y₀ x₁ y₁) :
    Between x₀ y₀ x₁ y₁ (point x₀ y₀ x₁ y₁ k) := by
  rw [← position_penAfter hk]
  exact ⟨along_between (offset_le hk), along_between (offset_le hk)⟩

/-- Different points from the first end of a line to the second, in the box that the ends span. -/
structure Joins (x₀ y₀ x₁ y₁ : Nat) (ps : List (Int × Int)) : Prop where
  nodup : ps.Nodup
  head : ps.head? = some (↑x₀, ↑y₀)
  last : ps.getLast? = some (↑x₁, ↑y₁)
  between : ∀ p ∈ ps, Between x₀ y₀ x₁ y₁ p

theorem course_joins (x₀ y₀ x₁ y₁ : Nat) : Joins x₀ y₀ x₁ y₁ (course x₀ y₀ x₁ y₁) where
  nodup := by
    refine List.Nodup.map_on ?_ List.nodup_range
    intro j hj k hk h
    exact point_inj (Nat.le_of_lt_succ (List.mem_range.mp hj))
      (Nat.le_of_lt_succ (List.mem_range.mp hk)) h
  head := by
    rw [course, List.range_succ_eq_map, List.map_cons, List.head?_cons, point_zero]
  last := by
    rw [course, List.range_succ, List.map_append, List.map_singleton, List.getLast?_concat,
      point_steps]
  between p hp := by
    obtain ⟨k, hk, rfl⟩ := List.mem_map.mp hp
    exact point_between (Nat.le_of_lt_succ (List.mem_range.mp hk))

/-- The pen is at the end of the line after all its steps, and not before. -/
theorem position_eq_end_iff (hk : k ≤ steps x₀ y₀ x₁ y₁) :
    ((penAfter x₀ y₀ x₁ y₁ k).x, (penAfter x₀ y₀ x₁ y₁ k).y) = (↑x₁, ↑y₁) ↔
      k = steps x₀ y₀ x₁ y₁ := by
  rw [position_penAfter hk, ← point_steps]
  constructor
  · exact point_inj hk (Nat.le_refl _)
  · rintro rfl
    rfl

theorem trace_penAfter {rest : Nat} (h : k + rest = steps x₀ y₀ x₁ y₁) :
    (penAfter x₀ y₀ x₁ y₁ k).trace (Slope.between x₀ y₀ x₁ y₁) (↑x₁, ↑y₁) (rest + 1) =
      (List.range' k (rest + 1)).map (penAfter x₀ y₀ x₁ y₁) := by
  induction rest generalizing k with
  | zero =>
    have hend := (position_eq_end_iff (k := k) (Nat.le_of_eq h)).mpr h
    rw [Pen.trace, if_pos hend]
    rfl
  | succ rest ih =>
    have hlt : k < steps x₀ y₀ x₁ y₁ := by omega
    have hend := mt (position_eq_end_iff (Nat.le_of_lt hlt)).mp (Nat.ne_of_lt hlt)
    rw [Pen.trace, if_neg hend, step_penAfter hlt, ih (by omega),
      List.range'_succ (s := k), List.map_cons]

theorem points_eq (x₀ y₀ x₁ y₁ : Nat) :
    points x₀ y₀ x₁ y₁ = (course x₀ y₀ x₁ y₁).map fun p => (p.1.toNat, p.2.toNat) := by
  have hfuel : max (Slope.between x₀ y₀ x₁ y₁).dx.natAbs (Slope.between x₀ y₀ x₁ y₁).dy.natAbs =
      steps x₀ y₀ x₁ y₁ := by
    simp only [between_eq, steps, Int.natAbs_neg, Int.natAbs_natCast]
  unfold points
  dsimp only
  rw [hfuel, ← penAfter_zero, trace_penAfter (Nat.zero_add _), course, List.map_map, List.map_map,
    List.range_eq_range']
  refine List.map_congr_left fun k hk => ?_
  have hle : k ≤ steps x₀ y₀ x₁ y₁ := by
    have := List.mem_range'_1.mp hk
    omega
  rw [Function.comp_apply, Function.comp_apply, ← position_penAfter hle]

/-! ### Machine words -/

/-- A signed machine word, unless the number is none. -/
def signed? (i : Int) : Option Int :=
  if -0x8000000000000000 ≤ i ∧ i < 0x8000000000000000 then some i else none

/-- The slope of a line and the pen at its first end, as they are computed. -/
def begin? (x₀ y₀ x₁ y₁ : Nat) : Option (Slope × Pen) := do
  let x ← signed? x₀
  let y ← signed? y₀
  let x₁ ← signed? x₁
  let y₁ ← signed? y₁
  let dx ← signed? (← signed? (x₁ - x)).natAbs
  let dy ← signed? (-(← signed? (← signed? (y₁ - y)).natAbs))
  let error ← signed? (dx + dy)
  return (⟨dx, dy, direction x x₁, direction y y₁⟩, ⟨x, y, error⟩)

/-- The pen at the next point, as it is computed. -/
def Pen.step? (m : Slope) (p : Pen) : Option Pen := do
  let e₂ ← signed? (2 * p.error)
  let p ← if m.dy ≤ e₂ then do
      let error ← signed? (p.error + m.dy)
      let x ← signed? (p.x + m.sx)
      pure { p with error, x }
    else pure p
  if e₂ ≤ m.dx then do
    let error ← signed? (p.error + m.dx)
    let y ← signed? (p.y + m.sy)
    return { p with error, y }
  else return p

theorem signed?_bind {α : Type} {i : Int} (f : Int → Option α)
    (h : -0x8000000000000000 ≤ i ∧ i < 0x8000000000000000) : (signed? i >>= f) = f i := by
  rw [signed?, if_pos h]
  rfl

theorem begin?_eq (hends : (x₀ < 2 ^ 61 ∧ y₀ < 2 ^ 61) ∧ x₁ < 2 ^ 61 ∧ y₁ < 2 ^ 61) :
    begin? x₀ y₀ x₁ y₁ = some (Slope.between x₀ y₀ x₁ y₁, penAfter x₀ y₀ x₁ y₁ 0) := by
  rw [penAfter_zero, begin?, signed?_bind _ (by omega), signed?_bind _ (by omega),
    signed?_bind _ (by omega), signed?_bind _ (by omega), signed?_bind _ (by omega),
    signed?_bind _ (by omega), signed?_bind _ (by omega), signed?_bind _ (by omega),
    signed?_bind _ (by omega), signed?_bind _ (by omega)]
  rfl

/-- A pen within the bounds of a small grid makes its next step without leaving the machine words.
-/
theorem step?_eq {m : Slope} {p : Pen}
    (hslope : (0 ≤ m.dx ∧ m.dx < 2 ^ 61) ∧ -2 ^ 61 < m.dy ∧ m.dy ≤ 0)
    (hunit : (-1 ≤ m.sx ∧ m.sx ≤ 1) ∧ -1 ≤ m.sy ∧ m.sy ≤ 1)
    (hposition : (0 ≤ p.x ∧ p.x < 2 ^ 61) ∧ 0 ≤ p.y ∧ p.y < 2 ^ 61)
    (herror : -(3 * 2 ^ 61) ≤ 2 * p.error ∧ 2 * p.error ≤ 3 * 2 ^ 61) :
    p.step? m = some (p.step m) := by
  unfold Pen.step? Pen.step
  rw [signed?_bind _ (by omega)]
  dsimp only
  by_cases hx : m.dy ≤ 2 * p.error <;> by_cases hy : 2 * p.error ≤ m.dx
  · rw [if_pos hx, if_pos hx, if_pos hy, signed?_bind _ (by omega), signed?_bind _ (by omega),
      pure_bind, if_pos hy]
    dsimp only
    rw [signed?_bind _ (by omega), signed?_bind _ (by omega)]
    rfl
  · rw [if_pos hx, if_pos hx, if_neg hy, signed?_bind _ (by omega), signed?_bind _ (by omega),
      pure_bind, if_neg hy]
    rfl
  · rw [if_neg hx, if_neg hx, if_pos hy, pure_bind, if_pos hy, signed?_bind _ (by omega),
      signed?_bind _ (by omega)]
    rfl
  · rw [if_neg hx, if_neg hx, if_neg hy, pure_bind, if_neg hy]
    rfl

theorem error_penAfter (hpos : 0 < steps x₀ y₀ x₁ y₁) (k : Nat) :
    -(3 * (steps x₀ y₀ x₁ y₁ : Int)) ≤ 2 * (penAfter x₀ y₀ x₁ y₁ k).error ∧
      2 * (penAfter x₀ y₀ x₁ y₁ k).error ≤ 3 * steps x₀ y₀ x₁ y₁ := by
  have hcols := offsets_near (k := k) hpos rfl
  have hrows := offsets_near (k := k) hpos (Nat.max_comm _ _)
  rw [← Int.ofNat_le] at hcols hrows
  simp only [penAfter]
  push_cast [steps] at hcols hrows ⊢
  constructor <;> linarith

theorem step?_penAfter (hends : (x₀ < 2 ^ 61 ∧ y₀ < 2 ^ 61) ∧ x₁ < 2 ^ 61 ∧ y₁ < 2 ^ 61)
    (hk : k < steps x₀ y₀ x₁ y₁) :
    (penAfter x₀ y₀ x₁ y₁ k).step? (Slope.between x₀ y₀ x₁ y₁) =
      some (penAfter x₀ y₀ x₁ y₁ (k + 1)) := by
  have hsteps : steps x₀ y₀ x₁ y₁ < 2 ^ 61 := by
    unfold steps extent
    omega
  have hpoint := point_between (Nat.le_of_lt hk)
  have herror := error_penAfter (Nat.zero_lt_of_lt hk) k
  rw [← position_penAfter (Nat.le_of_lt hk), Between] at hpoint
  rw [← step_penAfter hk]
  refine step?_eq ?_ ?_ ?_ ?_
  · simp only [between_eq, extent]
    omega
  · simp only [between_eq, direction]
    omega
  · omega
  · omega

end Line
end RemoteScreen
