/-!
Cutting a list into pieces of one length.
-/

namespace RemoteScreen

variable {α : Type}

/-- The pieces of `n` elements each, the last one as long as what is left. There are none for `n`
zero. -/
def chunks (n : Nat) (xs : List α) : List (List α) :=
  match xs with
  | [] => []
  | x :: rest => if n = 0 then [] else (x :: rest).take n :: chunks n ((x :: rest).drop n)
termination_by xs.length
decreasing_by
  simp only [List.length_drop, List.length_cons]
  omega

@[simp] theorem chunks_nil (n : Nat) : chunks n ([] : List α) = [] := by
  rw [chunks]

@[simp] theorem chunks_zero (xs : List α) : chunks 0 xs = [] := by
  cases xs <;> simp [chunks]

theorem chunks_of_ne_nil {n : Nat} {xs : List α} (hn : n ≠ 0) (hx : xs ≠ []) :
    chunks n xs = xs.take n :: chunks n (xs.drop n) := by
  cases xs with
  | nil => exact absurd rfl hx
  | cons x rest => rw [chunks, if_neg hn]

end RemoteScreen
