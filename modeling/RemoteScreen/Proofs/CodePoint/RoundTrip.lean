import RemoteScreen.Proofs.CodePoint.Reading

/-! Reading what has been written. The first byte of a code point says how many continue it, so it is
read back in front of anything, and code points in a row keep apart. On characters the bytes are those
of standard UTF-8. -/

namespace RemoteScreen.CodePoint

variable {k n : Nat}

theorem and_mask (cp : Nat) : cp &&& 0x1FFFFF = cp % limit :=
  Nat.and_two_pow_sub_one_eq_mod cp 21

/-! ### One code point -/

theorem continueWith_continuation (value n k : Nat) (rest : List UInt8) :
    continueWith value (n + 1) (continuation k :: rest) =
      continueWith (value * 0x40 + k % 0x40) n rest := by
  have hall : ∀ m < 0x40, isContinuation (UInt8.ofNat (0x80 + m)) = true ∧
      (UInt8.ofNat (0x80 + m)).toNat % 0x40 = m := by decide
  obtain ⟨hcontinues, hvalue⟩ := hall (k % 0x40) (Nat.mod_lt _ (by decide))
  rw [continuation, continueWith, if_pos hcontinues, hvalue]

theorem continueWith_zero (value : Nat) (rest : List UInt8) :
    continueWith value 0 rest = (value, rest) := by
  cases rest <;> rfl

theorem readAfter_of_lt (hn : n < 0x80) (rest : List UInt8) :
    readAfter (UInt8.ofNat n) rest = (n, rest) := by
  have hall : ∀ n < 0x80, leadingOnes (UInt8.ofNat n) = 0 ∧ (UInt8.ofNat n).toNat = n := by decide
  obtain ⟨hones, hvalue⟩ := hall n hn
  simp only [readAfter, hones, hvalue]

/-- A byte that begins with a one for itself and one for each of the bytes behind it, then a zero. -/
theorem readAfter_lead (ones : Nat) (hones : ones ∈ [1, 2, 3]) (hk : k < 2 ^ (6 - ones))
    (rest : List UInt8) :
    readAfter (UInt8.ofNat (0x100 - 2 ^ (7 - ones) + k)) rest = continueWith k ones rest := by
  have hall : ∀ ones ∈ [1, 2, 3], ∀ k < 2 ^ (6 - ones),
      leadingOnes (UInt8.ofNat (0x100 - 2 ^ (7 - ones) + k)) = ones + 1 ∧
      (UInt8.ofNat (0x100 - 2 ^ (7 - ones) + k)).toNat % (1 <<< (6 - ones)) = k ∧
      min ones 3 = ones := by decide
  obtain ⟨hlead, hvalue, hmin⟩ := hall ones hones k hk
  simp only [readAfter, hlead, hvalue, hmin]

theorem exists_lead_of_lt (hn : n < limit) (rest : List UInt8) : ∃ lead tail,
    encode n = lead :: tail ∧ readAfter lead (tail ++ rest) = (n, rest) := by
  simp only [encode, Nat.mod_eq_of_lt hn]
  simp only [limit] at hn
  split
  next h1 => exact ⟨_, _, rfl, readAfter_of_lt h1 rest⟩
  split
  next h1 h2 =>
    have hv : n / 0x40 * 0x40 + n % 0x40 = n := by omega
    refine ⟨_, _, rfl, (readAfter_lead 1 (by decide) (by omega) _).trans ?_⟩
    rw [List.cons_append, continueWith_continuation, hv]
    exact continueWith_zero n rest
  split
  next h1 h2 h3 =>
    have hv : (n / 0x1000 * 0x40 + n / 0x40 % 0x40) * 0x40 + n % 0x40 = n := by omega
    refine ⟨_, _, rfl, (readAfter_lead 2 (by decide) (by omega) _).trans ?_⟩
    rw [List.cons_append, continueWith_continuation, List.cons_append, continueWith_continuation, hv]
    exact continueWith_zero n rest
  next h1 h2 h3 =>
    have hv : ((n / 0x40000 * 0x40 + n / 0x1000 % 0x40) * 0x40 + n / 0x40 % 0x40) * 0x40 +
        n % 0x40 = n := by omega
    refine ⟨_, _, rfl, (readAfter_lead 3 (by decide) (by omega) _).trans ?_⟩
    rw [List.cons_append, continueWith_continuation, List.cons_append, continueWith_continuation,
      List.cons_append, continueWith_continuation, hv]
    exact continueWith_zero n rest

/-- The first byte that is written has the reading take the others, and nothing of what follows. -/
theorem exists_lead (cp : Nat) (rest : List UInt8) : ∃ lead tail,
    encode cp = lead :: tail ∧ readAfter lead (tail ++ rest) = (cp % limit, rest) := by
  have hencode : encode cp = encode (cp % limit) := by simp only [encode, Nat.mod_mod]
  rw [hencode]
  exact exists_lead_of_lt (Nat.mod_lt _ (by decide)) rest

theorem decode_encode_append (cp : Nat) (rest : List UInt8) :
    decode (encode cp ++ rest) = (cp % limit, (encode cp).length) := by
  obtain ⟨lead, tail, hencode, hread⟩ := exists_lead cp rest
  have hcount : (tail ++ rest).length + 1 - rest.length = tail.length + 1 := by
    rw [List.length_append]
    omega
  rw [hencode, List.cons_append, decode, hread, List.length_cons]
  simp only [hcount]

/-! ### Code points in a row -/

theorem decodeAll_encode_append (cp : Nat) (rest : List UInt8) :
    decodeAll (encode cp ++ rest) = cp % limit :: decodeAll rest := by
  obtain ⟨lead, tail, hencode, hread⟩ := exists_lead cp rest
  rw [hencode, List.cons_append, decodeAll_cons, hread]

theorem decodeAll_encodeAll (cps : List Nat) : decodeAll (encodeAll cps) = cps.map (· % limit) := by
  induction cps with
  | nil => exact decodeAll_nil
  | cons cp cps ih =>
    rw [encodeAll, List.flatMap_cons, ← encodeAll, decodeAll_encode_append, ih, List.map_cons]

/-! ### Characters -/

theorem toNat_lt (c : Char) : c.toNat < 0x110000 := by
  rcases c.valid with hlow | ⟨-, hhigh⟩
  · exact Nat.lt_trans hlow (by decide)
  · exact hhigh

theorem encode_toNat (c : Char) : encode c.toNat = String.utf8EncodeChar c := by
  have hlt := toNat_lt c
  have hmod : c.val.toNat % limit = c.val.toNat := Nat.mod_eq_of_lt (Nat.lt_trans hlt (by decide))
  rw [Char.toNat] at hlt ⊢
  simp only [encode, continuation, String.utf8EncodeChar, hmod]
  generalize c.val.toNat = n at hlt
  simp only [Nat.add_comm 0x80, Nat.add_comm 0xC0, Nat.add_comm 0xE0, Nat.add_comm 0xF0]
  split
  · rw [if_pos (by omega)]
  split
  · rw [if_neg (by omega), if_pos (by omega), Nat.mod_eq_of_lt (show n / 64 < 32 by omega)]
  split
  · rw [if_neg (by omega), if_neg (by omega), if_pos (by omega),
      Nat.mod_eq_of_lt (show n / 4096 < 16 by omega)]
  · rw [if_neg (by omega), if_neg (by omega), if_neg (by omega),
      Nat.mod_eq_of_lt (show n / 262144 < 8 by omega)]

theorem encodeText_eq (text : String) : encodeText text = text.toUTF8.data.toList := by
  have hchars : encodeText text = text.toList.flatMap String.utf8EncodeChar := by
    rw [encodeText, encodeAll, List.flatMap_map]
    exact congrArg (text.toList.flatMap ·) (funext encode_toNat)
  have hbytes : text.toUTF8 = text.toList.utf8Encode := by
    rw [← String.toByteArray_ofList, String.ofList_toList]
    rfl
  rw [hchars, hbytes, List.utf8Encode, List.toList_data_toByteArray]

/-- Code points in a row are read back modulo 2^21, and so is a single one in front of any bytes, of
which it takes none. Characters are written in standard UTF-8, one by one and as a text. -/
theorem decodeAll_reads_back :
    (∀ cps : List Nat, decodeAll (encodeAll cps) = cps.map (· &&& 0x1FFFFF)) ∧
    (∀ (cp : Nat) (rest : List UInt8),
      decode (encode cp ++ rest) = (cp &&& 0x1FFFFF, (encode cp).length)) ∧
    (∀ c : Char, encode c.toNat = String.utf8EncodeChar c) ∧
    ∀ text : String, encodeText text = text.toUTF8.data.toList := by
  simp only [and_mask]
  exact ⟨decodeAll_encodeAll, decode_encode_append, encode_toNat, encodeText_eq⟩

end RemoteScreen.CodePoint
