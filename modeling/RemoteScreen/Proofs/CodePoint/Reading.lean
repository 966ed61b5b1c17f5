import Mathlib.Data.FinEnum
import RemoteScreen.CodePoint

/-! Reading code points from any bytes at all. A reading takes the byte it begins with and the bytes
that continue it, three at the most, so every code point takes one to four bytes and reading all of
them ends. A byte that continues nothing stops the reading in progress, so bytes that begin with one
are read alike behind whatever was sent before. -/

namespace RemoteScreen.CodePoint

variable {b lead : UInt8} {bytes rest more : List UInt8} {value n k : Nat}

theorem isContinuation_iff : ∀ b : UInt8, isContinuation b = true ↔ b &&& 0xC0 = 0x80 := by
  decide +kernel

/-- Nothing that a reading in progress could take: no byte at all, or one that begins anew. -/
def BeginsAnew (bytes : List UInt8) : Prop :=
  ∀ b ∈ bytes.head?, b &&& 0xC0 ≠ 0x80

instance (bytes : List UInt8) : Decidable (BeginsAnew bytes) :=
  inferInstanceAs (Decidable (∀ b ∈ bytes.head?, b &&& 0xC0 ≠ 0x80))

/-! ### What one reading takes -/

theorem continueWith_suffix (value n : Nat) (bytes : List UInt8) :
    (continueWith value n bytes).2 <:+ bytes := by
  induction bytes generalizing value n with
  | nil => cases n <;> exact List.suffix_refl _
  | cons b rest ih =>
    cases n with
    | zero => exact List.suffix_refl _
    | succ n =>
      rw [continueWith]
      split
      · exact (ih _ n).trans (List.suffix_cons b rest)
      · exact List.suffix_refl _

theorem length_le_continueWith (value n : Nat) (bytes : List UInt8) :
    bytes.length ≤ (continueWith value n bytes).2.length + n := by
  induction bytes generalizing value n with
  | nil => exact Nat.zero_le _
  | cons b rest ih =>
    cases n with
    | zero => exact Nat.le_refl _
    | succ n =>
      rw [continueWith]
      split
      · have := ih (value * 0x40 + b.toNat % 0x40) n
        simp only [List.length_cons]
        omega
      · exact Nat.le_add_right _ _

theorem readAfter_suffix (lead : UInt8) (rest : List UInt8) : (readAfter lead rest).2 <:+ rest := by
  unfold readAfter
  split
  · exact List.suffix_refl _
  · exact continueWith_suffix _ _ _

theorem length_le_readAfter (lead : UInt8) (rest : List UInt8) :
    rest.length ≤ (readAfter lead rest).2.length + 3 := by
  unfold readAfter
  split
  · exact Nat.le_add_right _ _
  next ones _ =>
    have := length_le_continueWith (lead.toNat % (1 <<< (6 - ones))) (min ones 3) rest
    omega

theorem drop_decode (lead : UInt8) (rest : List UInt8) :
    (lead :: rest).drop (decode (lead :: rest)).2 = (readAfter lead rest).2 := by
  have hle := length_readAfter_le lead rest
  have hcount : (decode (lead :: rest)).2 = rest.length - (readAfter lead rest).2.length + 1 := by
    simp only [decode]
    omega
  rw [hcount, List.drop_succ_cons]
  exact (List.suffix_iff_eq_drop.mp (readAfter_suffix lead rest)).symm

theorem decode_bounds (h : bytes ≠ []) : 1 ≤ (decode bytes).2 ∧ (decode bytes).2 ≤ min 4 bytes.length := by
  cases bytes with
  | nil => exact absurd rfl h
  | cons lead rest =>
    have hle := length_readAfter_le lead rest
    have hge := length_le_readAfter lead rest
    simp only [decode, List.length_cons]
    omega

/-! ### What one reading gives -/

theorem continueWith_lt (h : value < 2 ^ k) (n : Nat) (bytes : List UInt8) :
    (continueWith value n bytes).1 < 2 ^ (k + 6 * n) := by
  have hgrow : ∀ n, value < 2 ^ (k + 6 * n) := fun n =>
    Nat.lt_of_lt_of_le h (Nat.pow_le_pow_right (by decide) (Nat.le_add_right _ _))
  induction bytes generalizing value n k with
  | nil => cases n <;> exact hgrow _
  | cons b rest ih =>
    cases n with
    | zero => exact h
    | succ n =>
      rw [continueWith]
      split
      · have hsix : value * 0x40 + b.toNat % 0x40 < 2 ^ (k + 6) := by
          rw [Nat.pow_add]
          omega
        have hlt := ih hsix n fun m =>
          Nat.lt_of_lt_of_le hsix (Nat.pow_le_pow_right (by decide) (Nat.le_add_right _ _))
        rwa [Nat.add_assoc, Nat.add_comm 6, ← Nat.mul_succ] at hlt
      · exact hgrow _

/-- A lead byte with more ones has fewer bits left for the value, and the bytes that it asks for have
six each: together there are never more than 21. -/
theorem readAfter_lt (lead : UInt8) (rest : List UInt8) : (readAfter lead rest).1 < limit := by
  unfold readAfter
  split
  · exact Nat.lt_trans lead.toNat_lt (by decide)
  next ones _ =>
    have hlead : lead.toNat % (1 <<< (6 - ones)) < 2 ^ (6 - ones) := by
      rw [Nat.one_shiftLeft]
      exact Nat.mod_lt _ (Nat.two_pow_pos _)
    have hbits : 6 - ones + 6 * min ones 3 ≤ 21 := by omega
    exact Nat.lt_of_lt_of_le (continueWith_lt hlead _ rest) (Nat.pow_le_pow_right (by decide) hbits)

theorem decode_lt (bytes : List UInt8) : (decode bytes).1 < limit := by
  cases bytes with
  | nil => decide
  | cons lead rest => exact readAfter_lt lead rest

/-! ### Reading all of them -/

theorem decodeAll_nil : decodeAll [] = [] := by
  rw [decodeAll]

theorem decodeAll_cons (lead : UInt8) (rest : List UInt8) :
    decodeAll (lead :: rest) = (readAfter lead rest).1 :: decodeAll (readAfter lead rest).2 := by
  rw [decodeAll]

theorem decodeAll_lt (bytes : List UInt8) : ∀ cp ∈ decodeAll bytes, cp < limit := by
  fun_induction decodeAll bytes with
  | case1 => exact fun _ hcp => nomatch hcp
  | case2 lead rest ih =>
    intro cp hcp
    rcases List.mem_cons.mp hcp with rfl | hcp
    · exact readAfter_lt lead rest
    · exact ih cp hcp

/-- Reading round by round: as long as there are bytes, one code point is taken off their front. The
rounds come to an end with `cps`. -/
inductive Reads : List UInt8 → List Nat → Prop where
  | done : Reads [] []
  | round {bytes : List UInt8} {cps : List Nat} (hne : bytes ≠ [])
      (hrest : Reads (bytes.drop (decode bytes).2) cps) : Reads bytes ((decode bytes).1 :: cps)

theorem reads_decodeAll (bytes : List UInt8) : Reads bytes (decodeAll bytes) := by
  fun_induction decodeAll bytes with
  | case1 => exact .done
  | case2 lead rest ih =>
    exact .round (List.cons_ne_nil _ _) (by rwa [drop_decode])

theorem Reads.eq_decodeAll {cps : List Nat} (h : Reads bytes cps) : cps = decodeAll bytes := by
  induction h with
  | done => exact decodeAll_nil.symm
  | @round bytes cps hne _ ih =>
    cases bytes with
    | nil => exact absurd rfl hne
    | cons lead rest => rw [ih, drop_decode, decodeAll_cons, decode]

theorem reads_iff {cps : List Nat} : Reads bytes cps ↔ cps = decodeAll bytes :=
  ⟨Reads.eq_decodeAll, fun h => h ▸ reads_decodeAll bytes⟩

/-! ### What follows -/

theorem continueWith_anew (h : BeginsAnew more) (value n : Nat) :
    continueWith value n more = (value, more) := by
  cases more with
  | nil => cases n <;> rfl
  | cons b rest =>
    have hb : ¬isContinuation b = true := (isContinuation_iff b).not.mpr (h b rfl)
    cases n with
    | zero => rfl
    | succ n => rw [continueWith, if_neg hb]

theorem continueWith_append (h : BeginsAnew more) (value n : Nat) (bytes : List UInt8) :
    continueWith value n (bytes ++ more) =
      ((continueWith value n bytes).1, (continueWith value n bytes).2 ++ more) := by
  induction bytes generalizing value n with
  | nil =>
    rw [List.nil_append, continueWith_anew h]
    cases n <;> rfl
  | cons b rest ih =>
    cases n with
    | zero => rfl
    | succ n =>
      rw [List.cons_append, continueWith, continueWith]
      split
      · exact ih _ n
      · rfl

theorem readAfter_append (h : BeginsAnew more) (lead : UInt8) (rest : List UInt8) :
    readAfter lead (rest ++ more) = ((readAfter lead rest).1, (readAfter lead rest).2 ++ more) := by
  unfold readAfter
  split
  · rfl
  · exact continueWith_append h _ _ rest

theorem decodeAll_append (h : BeginsAnew more) (bytes : List UInt8) :
    decodeAll (bytes ++ more) = decodeAll bytes ++ decodeAll more := by
  fun_induction decodeAll bytes with
  | case1 => rfl
  | case2 lead rest ih =>
    rw [List.cons_append, decodeAll_cons, readAfter_append h, ih, List.cons_append]

/-- Whatever the bytes, each reading takes one to four of them, all readings end, and no code point is
above the largest. Bytes that begin anew are read as if nothing stood in front of them, and do not
change what does: a sequence that is cut short or malformed takes nothing of a character behind it. -/
theorem decodeAll_resynchronises (bytes more : List UInt8) (hmore : BeginsAnew more) :
    (bytes ≠ [] → 1 ≤ (decode bytes).2 ∧ (decode bytes).2 ≤ min 4 bytes.length) ∧
    (∀ cps, Reads bytes cps ↔ cps = decodeAll bytes) ∧
    (decode bytes).1 ≤ 0x1FFFFF ∧ (∀ cp ∈ decodeAll bytes, cp ≤ 0x1FFFFF) ∧
    decodeAll (bytes ++ more) = decodeAll bytes ++ decodeAll more :=
  ⟨decode_bounds, fun _ => reads_iff, Nat.le_of_lt_succ (decode_lt bytes),
    fun cp hcp => Nat.le_of_lt_succ (decodeAll_lt bytes cp hcp), decodeAll_append hmore bytes⟩

/-- The bytes 0xE4 and 0xB8 want one more, and a letter comes. -/
theorem decodeAll_resynchronises_of_cut :
    BeginsAnew [0x41, 0x80] ∧ decode [0xE4, 0xB8] = (0x138, 2) ∧
    1 ≤ (decode [0xE4, 0xB8]).2 ∧ (decode [0xE4, 0xB8]).2 ≤ 2 ∧
    Reads [0xE4, 0xB8] [0x138] ∧ (decode [0xE4, 0xB8]).1 ≤ 0x1FFFFF ∧
    decodeAll ([0xE4, 0xB8] ++ [0x41, 0x80]) = [0x138, 0x41, 0] := by
  have hmore : BeginsAnew [0x41, 0x80] := by decide +kernel
  obtain ⟨hcount, hreads, hle, -, happend⟩ := decodeAll_resynchronises [0xE4, 0xB8] _ hmore
  obtain ⟨hpos, hlen⟩ := hcount (List.cons_ne_nil _ _)
  have hall : [0x138] = decodeAll [0xE4, 0xB8] := by decide +kernel
  refine ⟨hmore, by decide, hpos, Nat.le_trans hlen (by decide), (hreads _).mpr hall, hle, ?_⟩
  rw [happend]
  decide +kernel

end RemoteScreen.CodePoint
