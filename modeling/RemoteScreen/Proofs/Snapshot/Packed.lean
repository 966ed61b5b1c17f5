import RemoteScreen.Proofs.Cell.Canonical
import RemoteScreen.Snapshot

/-! Snapshots as packed cells. Bytes are accepted exactly if they are four for each cell of the grid,
where a product of extents that is no machine word never passes for a smaller one. Packing undoes
unpacking but for the bit of each cell that holds no field, and unpacking undoes packing where that
bit is clear. -/

namespace RemoteScreen

/-! ### One cell -/

namespace Cell

variable {c : Cell}

theorem toNat_ofBits (bits : UInt32) : (ofBits bits).bits.toNat = bits.toNat % 2 ^ 31 := by
  have hmask : (styleMask ||| codePointMask).toNat = 2 ^ 31 - 1 := by decide
  rw [ofBits, UInt32.toNat_and, hmask, Nat.and_two_pow_sub_one_eq_mod]

theorem toNat_ofBytes (b₀ b₁ b₂ b₃ : UInt8) : (ofBytes b₀ b₁ b₂ b₃).bits.toNat =
    b₀.toNat + b₁.toNat * 0x100 + b₂.toNat * 0x10000 + b₃.toNat % 0x80 * 0x1000000 := by
  have h₀ : b₀.toNat < 0x100 := b₀.toNat_lt
  have h₁ : b₁.toNat < 0x100 := b₁.toNat_lt
  have h₂ : b₂.toNat < 0x100 := b₂.toNat_lt
  have h₃ : b₃.toNat < 0x100 := b₃.toNat_lt
  rw [ofBytes, toNat_ofBits, UInt32.toNat_ofNat']
  omega

theorem toBytes_ofBytes (b₀ b₁ b₂ b₃ : UInt8) :
    (ofBytes b₀ b₁ b₂ b₃).toBytes = [b₀, b₁, b₂, b₃ &&& 0x7F] := by
  have h₀ : b₀.toNat < 0x100 := b₀.toNat_lt
  have h₁ : b₁.toNat < 0x100 := b₁.toNat_lt
  have h₂ : b₂.toNat < 0x100 := b₂.toNat_lt
  have htop : (b₃ &&& 0x7F).toNat = b₃.toNat % 0x80 := by
    rw [UInt8.toNat_and]
    exact Nat.and_two_pow_sub_one_eq_mod b₃.toNat 7
  simp only [toBytes, toNat_ofBytes, List.cons.injEq, ← UInt8.toNat_inj, UInt8.toNat_ofNat', htop,
    and_true]
  omega

theorem Canonical.ofBytes_toBytes (h : c.Canonical) :
    ∃ b₀ b₁ b₂ b₃, c.toBytes = [b₀, b₁, b₂, b₃] ∧ ofBytes b₀ b₁ b₂ b₃ = c := by
  have hlt : c.bits.toNat < 2 ^ 31 := (canonical_iff_lt c).mp h
  refine ⟨_, _, _, _, rfl, congrArg Cell.mk (UInt32.toNat_inj.mp ((toNat_ofBytes _ _ _ _).trans ?_))⟩
  simp only [UInt8.toNat_ofNat']
  omega

end Cell

namespace Snapshot

variable {bytes : List UInt8} {n : Nat}

/-! ### Cells in a row -/

theorem exists_four (h : bytes.length = 4 * (n + 1)) : ∃ b₀ b₁ b₂ b₃ rest,
    bytes = b₀ :: b₁ :: b₂ :: b₃ :: rest ∧ rest.length = 4 * n := by
  match bytes, h with
  | b₀ :: b₁ :: b₂ :: b₃ :: rest, h =>
    simp only [List.length_cons] at h
    exact ⟨b₀, b₁, b₂, b₃, rest, rfl, by omega⟩

theorem length_unpack (h : bytes.length = 4 * n) : (unpack bytes).length = n := by
  induction n generalizing bytes with
  | zero =>
    rw [List.length_eq_zero_iff.mp h]
    rfl
  | succ n ih =>
    obtain ⟨b₀, b₁, b₂, b₃, rest, rfl, hrest⟩ := exists_four h
    rw [unpack, List.length_cons, ih hrest]

/-- A cell of the grid is made of the four bytes in its place. -/
theorem getElem?_unpack (h : bytes.length = 4 * n) {i : Nat} (hi : i < n) : ∃ b₀ b₁ b₂ b₃,
    (bytes.drop (4 * i)).take 4 = [b₀, b₁, b₂, b₃] ∧
    (unpack bytes)[i]? = some (.ofBytes b₀ b₁ b₂ b₃) := by
  induction n generalizing bytes i with
  | zero => exact absurd hi (Nat.not_lt_zero i)
  | succ n ih =>
    obtain ⟨b₀, b₁, b₂, b₃, rest, rfl, hrest⟩ := exists_four h
    cases i with
    | zero => exact ⟨b₀, b₁, b₂, b₃, rfl, rfl⟩
    | succ i => exact ih hrest (Nat.lt_of_succ_lt_succ hi)

/-- The bytes with the top bit of every fourth one cleared. -/
def clearUnused (bytes : List UInt8) : List UInt8 :=
  bytes.mapIdx fun i b => if i % 4 = 3 then b &&& 0x7F else b

theorem clearUnused_cons (b₀ b₁ b₂ b₃ : UInt8) (rest : List UInt8) :
    clearUnused (b₀ :: b₁ :: b₂ :: b₃ :: rest) =
      b₀ :: b₁ :: b₂ :: (b₃ &&& 0x7F) :: clearUnused rest := by
  simp only [clearUnused, List.mapIdx_cons, Nat.add_mod_right, Nat.add_assoc, Nat.reduceAdd,
    Nat.reduceMod, Nat.zero_add]
  rfl

theorem toBytes_unpack (h : bytes.length = 4 * n) :
    (unpack bytes).flatMap Cell.toBytes = clearUnused bytes := by
  induction n generalizing bytes with
  | zero =>
    rw [List.length_eq_zero_iff.mp h]
    rfl
  | succ n ih =>
    obtain ⟨b₀, b₁, b₂, b₃, rest, rfl, hrest⟩ := exists_four h
    rw [unpack, List.flatMap_cons, Cell.toBytes_ofBytes, ih hrest, clearUnused_cons]
    rfl

theorem unpack_toBytes {cells : List Cell} (h : ∀ c ∈ cells, c.Canonical) :
    unpack (cells.flatMap Cell.toBytes) = cells := by
  induction cells with
  | nil => rfl
  | cons c cells ih =>
    obtain ⟨hc, hcells⟩ := List.forall_mem_cons.mp h
    obtain ⟨b₀, b₁, b₂, b₃, hbytes, hcell⟩ := hc.ofBytes_toBytes
    rw [List.flatMap_cons, hbytes, List.cons_append, List.cons_append, List.cons_append,
      List.cons_append, List.nil_append, unpack, hcell, ih hcells]

theorem length_flatMap_toBytes (cells : List Cell) :
    (cells.flatMap Cell.toBytes).length = 4 * cells.length := by
  induction cells with
  | nil => rfl
  | cons c cells ih =>
    rw [List.flatMap_cons, List.length_append, ih, List.length_cons, Nat.mul_succ, Nat.add_comm]
    rfl

/-! ### Sizes -/

/-- The product of two machine words, unless it is too large for one. -/
def product? (m n : UInt64) : Option UInt64 :=
  if m.toNat * n.toNat < UInt64.size then some (m * n) else none

/-- The bytes of a grid, computed in machine words: where a product is too large, the largest word. -/
def gridWord (width height : UInt64) : UInt64 :=
  ((product? width height).bind (product? · 4)).getD 0xFFFFFFFFFFFFFFFF

theorem gridBytes_eq (width height : Nat) : gridBytes width height =
    if 4 * width * height ≤ maxCount then 4 * width * height else maxCount := by
  have hcomm : width * height * Cell.byteCount = 4 * width * height := by
    rw [Nat.mul_comm, Nat.mul_assoc]
    rfl
  rw [gridBytes, hcomm]
  exact Nat.min_def

theorem product?_of_lt {m n : UInt64} (h : m.toNat * n.toNat < UInt64.size) :
    ∃ p, product? m n = some p ∧ p.toNat = m.toNat * n.toNat :=
  ⟨m * n, if_pos h, by rw [UInt64.toNat_mul]; exact Nat.mod_eq_of_lt h⟩

theorem toNat_gridWord (width height : UInt64) :
    (gridWord width height).toNat = gridBytes width.toNat height.toNat := by
  have hmax : UInt64.size = maxCount + 1 := rfl
  unfold gridWord gridBytes
  by_cases hcells : width.toNat * height.toNat < UInt64.size
  · obtain ⟨p, hp, hvalue⟩ := product?_of_lt hcells
    rw [hp, Option.bind_some, ← hvalue]
    by_cases hfits : p.toNat * Cell.byteCount < UInt64.size
    · obtain ⟨q, hq, hqvalue⟩ : ∃ q, product? p 4 = some q ∧ q.toNat = p.toNat * Cell.byteCount :=
        product?_of_lt hfits
      rw [hq, Option.getD_some, hqvalue]
      exact (Nat.min_eq_left (by omega)).symm
    · have hnone : product? p 4 = none := if_neg hfits
      rw [hnone, Option.getD_none, Nat.min_eq_right (by omega)]
      rfl
  · have hnone : product? width height = none := if_neg hcells
    have hlarge : maxCount ≤ width.toNat * height.toNat * Cell.byteCount :=
      Nat.le_trans (by omega) (Nat.le_mul_of_pos_right _ (by decide))
    rw [hnone, Option.bind_none, Option.getD_none, Nat.min_eq_right hlarge]
    rfl

/-! ### Acceptance -/

theorem length_eq_gridBytes_iff {width height : Nat} (hbytes : bytes.length ≤ maxObjectBytes) :
    bytes.length = gridBytes width height ↔ bytes.length = 4 * width * height := by
  have hlt : bytes.length < maxCount := Nat.lt_of_le_of_lt hbytes (by decide)
  rw [gridBytes_eq]
  split <;> omega

theorem ofBytes_eq_ok_iff {width height : Nat} {s : Snapshot}
    (hbytes : bytes.length ≤ maxObjectBytes) : ofBytes width height bytes = .ok s ↔
      bytes.length = 4 * width * height ∧ s = ⟨width, height, unpack bytes⟩ := by
  rw [← length_eq_gridBytes_iff hbytes]
  simp only [ofBytes]
  split
  next h =>
    rw [Except.ok.injEq, eq_comm]
    exact ⟨fun hs => ⟨h, hs⟩, fun hs => hs.2⟩
  next h => exact ⟨fun hs => (nomatch hs), fun hs => absurd hs.1 h⟩

theorem ofBytes_eq_error {width height : Nat} (hbytes : bytes.length ≤ maxObjectBytes)
    (h : bytes.length ≠ 4 * width * height) :
    ofBytes width height bytes = .error (.lengthMismatch (gridBytes width height) bytes.length) :=
  if_neg ((length_eq_gridBytes_iff hbytes).not.mpr h)

theorem ofBytes_toBytes {s : Snapshot} (hsize : s.toBytes.length ≤ maxObjectBytes)
    (hcells : s.cells.length = s.width * s.height) (hcanonical : ∀ c ∈ s.cells, c.Canonical) :
    ofBytes s.width s.height s.toBytes = .ok s := by
  have hlength : s.toBytes.length = 4 * s.width * s.height := by
    rw [toBytes, length_flatMap_toBytes, hcells, Nat.mul_assoc]
  refine (ofBytes_eq_ok_iff hsize).mpr ⟨hlength, ?_⟩
  rw [toBytes, unpack_toBytes hcanonical]

/-- Bytes are a snapshot exactly if they are four for each place of the grid. Then the cells are those
that the bytes hold, in their order, and packed they are the bytes again, less the unused bits. Other
bytes are refused with the two lengths, where one that is no machine word counts as the largest. And a
snapshot with a cell for each place, whose unused bits are clear, comes back from its packed cells.
No bytes in memory are more than the largest object. -/
theorem ofBytes_exact (width height : UInt64) (bytes : List UInt8)
    (hbytes : bytes.length ≤ maxObjectBytes) :
    let exact := 4 * width.toNat * height.toNat
    let expected := if exact ≤ maxCount then exact else maxCount
    (gridWord width height).toNat = expected ∧
    ((∃ s, ofBytes width.toNat height.toNat bytes = .ok s) ↔ bytes.length = exact) ∧
    (bytes.length ≠ exact →
      ofBytes width.toNat height.toNat bytes = .error (.lengthMismatch expected bytes.length)) ∧
    (∀ s, ofBytes width.toNat height.toNat bytes = .ok s →
      s.width = width.toNat ∧ s.height = height.toNat ∧
      s.cells.length = width.toNat * height.toNat ∧
      (∀ i < s.cells.length, ∃ b₀ b₁ b₂ b₃, (bytes.drop (4 * i)).take 4 = [b₀, b₁, b₂, b₃] ∧
        s.cells[i]? = some (.ofBytes b₀ b₁ b₂ b₃)) ∧
      s.toBytes = clearUnused bytes) ∧
    ∀ s : Snapshot, s.toBytes.length ≤ maxObjectBytes → s.cells.length = s.width * s.height →
      (∀ c ∈ s.cells, c.bits &&& Cell.unusedMask = 0) → ofBytes s.width s.height s.toBytes = .ok s := by
  intro exact expected
  have hexpected : gridBytes width.toNat height.toNat = expected := gridBytes_eq _ _
  refine ⟨(toNat_gridWord width height).trans hexpected, ⟨?_, fun h => ?_⟩, fun h => ?_, ?_,
    fun s => ofBytes_toBytes⟩
  · rintro ⟨s, hs⟩
    exact ((ofBytes_eq_ok_iff hbytes).mp hs).1
  · exact ⟨_, (ofBytes_eq_ok_iff hbytes).mpr ⟨h, rfl⟩⟩
  · rw [ofBytes_eq_error hbytes h, hexpected]
  · intro s hs
    obtain ⟨hlength, rfl⟩ := (ofBytes_eq_ok_iff hbytes).mp hs
    rw [Nat.mul_assoc] at hlength
    have hcells := length_unpack hlength
    refine ⟨rfl, rfl, hcells, fun i hi => getElem?_unpack hlength (hcells ▸ hi), toBytes_unpack hlength⟩

/-- Two cells, the second one with its unused bit set; then extents whose product is no machine word;
then a snapshot of one row. -/
theorem ofBytes_exact_of_two :
    let bytes : List UInt8 := [0x6F, 0, 0, 0x02, 0xBB, 0x03, 0, 0xC7]
    let s : Snapshot := ⟨2, 1, [.ofCodePoint 0x6F, .defaultStyle]⟩
    bytes.length ≤ maxObjectBytes ∧ (∃ t, ofBytes 2 1 bytes = .ok t) ∧
    (∀ t, ofBytes 2 1 bytes = .ok t → t.toBytes = [0x6F, 0, 0, 0x02, 0xBB, 0x03, 0, 0x47]) ∧
    ofBytes maxCount 2 [] = .error (.lengthMismatch maxCount 0) ∧
    s.toBytes.length ≤ maxObjectBytes ∧ s.cells.length = s.width * s.height ∧
    (∀ c ∈ s.cells, c.bits &&& Cell.unusedMask = 0) ∧ ofBytes 2 1 s.toBytes = .ok s := by
  intro bytes s
  have hbytes : bytes.length ≤ maxObjectBytes := by decide
  have hsize : s.toBytes.length ≤ maxObjectBytes := by decide
  have hcanonical : ∀ c ∈ s.cells, c.bits &&& Cell.unusedMask = 0 := by decide
  obtain ⟨-, haccepted, -, hloaded, hback⟩ := ofBytes_exact 2 1 bytes hbytes
  obtain ⟨-, -, hrefused, -⟩ := ofBytes_exact 0xFFFFFFFFFFFFFFFF 2 [] (Nat.zero_le _)
  refine ⟨hbytes, haccepted.mpr rfl, fun t ht => ?_, hrefused (by decide), hsize, rfl, hcanonical,
    hback s hsize rfl hcanonical⟩
  obtain ⟨-, -, -, -, hpacked⟩ := hloaded t ht
  rw [hpacked]
  decide

end Snapshot
end RemoteScreen
