/-!
Decimal digits of natural numbers. `digits n` has no leading zero, and `value_digits` says that
reading the digits back gives the number.
-/

namespace RemoteScreen.Decimal

/-- The digits of `n`, the most significant first; zero has one digit. -/
def digits (n : Nat) : List Nat :=
  if n < 10 then [n] else digits (n / 10) ++ [n % 10]

/-- The number that a list of digits writes. -/
def value (ds : List Nat) : Nat :=
  ds.foldl (fun v d => 10 * v + d) 0

theorem value_append_singleton (ds : List Nat) (d : Nat) : value (ds ++ [d]) = 10 * value ds + d := by
  simp [value]

@[simp] theorem value_digits (n : Nat) : value (digits n) = n := by
  induction n using Nat.strongRecOn with
  | ind n ih =>
    rw [digits]
    split
    · simp [value]
    · rw [value_append_singleton, ih (n / 10) (by omega)]
      omega

theorem digits_ne_nil (n : Nat) : digits n ≠ [] := by
  rw [digits]
  split <;> simp

/-- Only zero begins with the digit zero. -/
theorem head?_digits_ne_zero {n : Nat} (hn : n ≠ 0) : (digits n).head? ≠ some 0 := by
  induction n using Nat.strongRecOn with
  | ind n ih =>
    rw [digits]
    split
    · simpa using hn
    · have hhead := ih (n / 10) (by omega) (by omega)
      cases hds : digits (n / 10) with
      | nil => exact absurd hds (digits_ne_nil _)
      | cons d ds => rwa [hds] at hhead

theorem lt_ten_of_mem_digits {n d : Nat} (h : d ∈ digits n) : d < 10 := by
  induction n using Nat.strongRecOn with
  | ind n ih =>
    rw [digits] at h
    split at h
    · simp at h
      omega
    · rcases List.mem_append.1 h with h | h
      · exact ih (n / 10) (by omega) h
      · simp at h
        omega

/-- The ASCII bytes of a number. -/
def bytes (n : Nat) : List UInt8 :=
  (digits n).map fun d => UInt8.ofNat (0x30 + d)

/-- The characters of a number. -/
def chars (n : Nat) : List Char :=
  (digits n).map fun d => Char.ofNat (0x30 + d)

/-- The number that a text of ASCII digits writes; any other text, the empty one too, writes none. -/
def ofChars? (cs : List Char) : Option Nat :=
  if cs ≠ [] ∧ cs.all Char.isDigit then some (value (cs.map fun c => c.toNat - 0x30)) else none

private theorem isDigit_ofNat {d : Nat} (h : d < 10) : (Char.ofNat (0x30 + d)).isDigit = true := by
  revert h; revert d; decide

private theorem toNat_ofNat {d : Nat} (h : d < 10) : (Char.ofNat (0x30 + d)).toNat - 0x30 = d := by
  revert h; revert d; decide

theorem all_isDigit_chars (n : Nat) : (chars n).all Char.isDigit = true := by
  simp only [chars, List.all_map, List.all_eq_true]
  exact fun d hd => isDigit_ofNat (lt_ten_of_mem_digits hd)

@[simp] theorem ofChars?_chars (n : Nat) : ofChars? (chars n) = some n := by
  have hne : chars n ≠ [] := by simp [chars, digits_ne_nil]
  have hmap : (chars n).map (fun c => c.toNat - 0x30) = digits n := by
    rw [chars, List.map_map]
    conv => rhs; rw [← List.map_id (digits n)]
    exact List.map_congr_left fun d hd => toNat_ofNat (lt_ten_of_mem_digits hd)
  rw [ofChars?, if_pos ⟨hne, all_isDigit_chars n⟩, hmap, value_digits]

end RemoteScreen.Decimal
