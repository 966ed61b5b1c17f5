import RemoteScreen.Proofs.Json.Forms
import RemoteScreen.Proofs.Snapshot.Packed
import RemoteScreen.Snapshot.Form

/-! Snapshots as documents. Writing one and reading it gives it back, the unused bits of its cells
included. What is read from a document has a cell for each place of its grid: a document has more than
twice as many bytes as it has cells (`length_cells_le`), so the bytes of these are counted exactly, and
a product of extents that is no machine word is never equal to that count. -/

namespace RemoteScreen.Snapshot

open Json

variable {s : Snapshot} {document : String} {j : Json}

/-- The snapshot that a document writes, whether or not its cells fill the grid. -/
def written? (document : String) : Option Snapshot :=
  (Json.read? document).bind ofJson?

/-- A form of a snapshot has its extents, as machine words, and its cells. -/
theorem ofJson?_eq_some_iff : ofJson? j = some s ↔
    ∃ (w h c : Option Json) (width height : UInt64),
      fields? ["width", "height", "cells"] j = some [w, h, c] ∧
      required? w = some width ∧ required? h = some height ∧ required? c = some s.cells ∧
      s.width = width.toNat ∧ s.height = height.toNat := by
  constructor
  · intro hs
    obtain ⟨found, hfound, hrest⟩ := Option.bind_eq_some_iff.mp hs
    match found, hrest with
    | [w, h, c], hrest =>
      obtain ⟨width, hwidth, hrest⟩ := Option.bind_eq_some_iff.mp hrest
      obtain ⟨height, hheight, hrest⟩ := Option.bind_eq_some_iff.mp hrest
      obtain ⟨cells, hcells, hrest⟩ := Option.bind_eq_some_iff.mp hrest
      cases hrest
      exact ⟨w, h, c, width, height, hfound, hwidth, hheight, hcells, rfl, rfl⟩
  · rintro ⟨w, h, c, width, height, hfound, hwidth, hheight, hcells, hw, hh⟩
    obtain ⟨_, _, cells⟩ := s
    cases hw
    cases hh
    refine Option.bind_eq_some_iff.mpr ⟨_, hfound, ?_⟩
    refine Option.bind_eq_some_iff.mpr ⟨_, hwidth, ?_⟩
    refine Option.bind_eq_some_iff.mpr ⟨_, hheight, ?_⟩
    exact Option.bind_eq_some_iff.mpr ⟨_, hcells, rfl⟩

/-! ### Writing -/

/-- The fields of a snapshot's form, by name. -/
def fieldsOf (s : Snapshot) : List (String × Json) :=
  [("width", ofNat s.width), ("height", ofNat s.height), ("cells", toJson s.cells)]

theorem ofJson?_toJson (width height : UInt64) (cells : List Cell) :
    ofJson? (toJson (⟨width.toNat, height.toNat, cells⟩ : Snapshot)) =
      some (⟨width.toNat, height.toNat, cells⟩ : Snapshot) := by
  have hdistinct : ((fieldsOf ⟨width.toNat, height.toNat, cells⟩).map (·.1)).Nodup :=
    (by decide : ["width", "height", "cells"].Nodup)
  exact ofJson?_eq_some_iff.mpr ⟨_, _, _, width, height, fields?_record hdistinct,
    LawfulForm.ofJson?_toJson width, LawfulForm.ofJson?_toJson height,
    LawfulForm.ofJson?_toJson cells, rfl, rfl⟩

theorem plain_toJson (s : Snapshot) : Plain (toJson s) := by
  refine @plain_record (fieldsOf s) fun f hf => ?_
  simp only [fieldsOf, List.mem_cons, List.not_mem_nil, or_false] at hf
  rcases hf with rfl | rfl | rfl
  · exact .nat _
  · exact .nat _
  · exact LawfulForm.plain s.cells

theorem written?_toDocument (width height : UInt64) (cells : List Cell) :
    written? (toDocument ⟨width.toNat, height.toNat, cells⟩) =
      some ⟨width.toNat, height.toNat, cells⟩ := by
  rw [written?, toDocument, read?_pretty (plain_toJson _), Option.bind_some, ofJson?_toJson]

/-! ### Reading -/

/-- The cells of a document are in an array in it. -/
theorem length_cells_le (h : written? document = some s) :
    2 * s.cells.length ≤ document.utf8ByteSize := by
  obtain ⟨j, hread, hform⟩ := Option.bind_eq_some_iff.mp h
  obtain ⟨w, h, c, width, height, hfields, -, -, hcells, -⟩ := ofJson?_eq_some_iff.mp hform
  obtain ⟨v, rfl, hv⟩ := Option.bind_eq_some_iff.mp hcells
  have hchild : v ∈ j.children := mem_children_of_fields? hfields (by simp)
  calc 2 * s.cells.length
    _ ≤ v.tokens.length := length_ofJson?_le hv
    _ ≤ j.tokens.length := length_tokens_child hchild
    _ ≤ document.length := length_tokens_le hread
    _ ≤ document.utf8ByteSize := length_le_utf8ByteSize document

theorem check_of_full (h : s.cells.length = s.width * s.height) : check s = .ok s := by
  rw [check, gridBytes, h, if_pos rfl]

/-- As long as the bytes of the cells can be counted, the check compares exact counts. -/
theorem check_eq (h : 4 * s.cells.length < maxCount) : check s =
    if s.cells.length = s.width * s.height then .ok s
    else .error (.lengthMismatch (gridBytes s.width s.height) (4 * s.cells.length)) := by
  have hactual : min (s.cells.length * Cell.byteCount) maxCount = 4 * s.cells.length := by
    rw [Nat.mul_comm]
    exact Nat.min_eq_left (Nat.le_of_lt h)
  have hiff : 4 * s.cells.length = gridBytes s.width s.height ↔
      s.cells.length = s.width * s.height := by
    rw [gridBytes_eq, Nat.mul_assoc]
    split <;> omega
  simp only [check, hactual, hiff]

theorem ofDocument_eq (document : String) : ofDocument document =
    match written? document with
    | some s => check s
    | none => .error .malformed := rfl

theorem ofDocument_of_written (h : written? document = some s) : ofDocument document = check s := by
  rw [ofDocument_eq, h]

theorem ofDocument_of_not_written (h : written? document = none) :
    ofDocument document = .error .malformed := by
  rw [ofDocument_eq, h]

/-- No document in memory writes more cells than can be counted in bytes. -/
theorem cells_lt_maxCount (hsize : document.utf8ByteSize ≤ maxObjectBytes)
    (h : written? document = some s) : 4 * s.cells.length < maxCount := by
  have hcells := length_cells_le h
  have hcount : 2 * maxObjectBytes < maxCount := by decide
  omega

/-- Every snapshot with a cell for each place of its grid is read back from its document, whatever the
words of its cells and its extents. Any other document is refused, or it writes a snapshot; this is
accepted if it has a cell for each place, and refused with the bytes of its cells otherwise, where an
extent in bytes that is no machine word counts as the largest. So all that is read fills its grid. No
document in memory is larger than the largest object. -/
theorem ofDocument_exact :
    (∀ (width height : UInt64) (cells : List Cell),
      let s : Snapshot := ⟨width.toNat, height.toNat, cells⟩
      cells.length = s.width * s.height → ofDocument s.toDocument = .ok s) ∧
    ∀ document : String, document.utf8ByteSize ≤ maxObjectBytes →
      (∀ s, ofDocument document = .ok s → s.cells.length = s.width * s.height) ∧
      (written? document = none → ofDocument document = .error .malformed) ∧
      ∀ s, written? document = some s →
        let exact := 4 * s.width * s.height
        let expected := if exact ≤ maxCount then exact else maxCount
        (s.cells.length = s.width * s.height → ofDocument document = .ok s) ∧
        (s.cells.length ≠ s.width * s.height →
          ofDocument document = .error (.lengthMismatch expected (4 * s.cells.length))) := by
  refine ⟨?_, fun document hsize => ⟨?_, ofDocument_of_not_written, ?_⟩⟩
  · intro width height cells s hcells
    rw [ofDocument_of_written (written?_toDocument width height cells), check_of_full hcells]
  · intro s hs
    cases hwritten : written? document with
    | none =>
      rw [ofDocument_of_not_written hwritten] at hs
      cases hs
    | some t =>
      rw [ofDocument_of_written hwritten, check_eq (cells_lt_maxCount hsize hwritten)] at hs
      split at hs
      next hcells =>
        cases hs
        exact hcells
      next => cases hs
  · intro s hs exact expected
    rw [ofDocument_of_written hs, check_eq (cells_lt_maxCount hsize hs)]
    exact ⟨fun hcells => if_pos hcells, fun hcells => by rw [if_neg hcells, gridBytes_eq]⟩

/-- A cell with its unused bit set; then the widest grid of no rows, one with a cell missing, and one of
more cells than are counted. -/
theorem ofDocument_exact_of_unused_bit :
    let s : Snapshot := ⟨1, 2, [⟨0x87000020⟩, ⟨0xFFFFFFFF⟩]⟩
    let wide : Snapshot := ⟨maxCount, 0, []⟩
    let missing := "\x7b\"cells\": [0], \"height\": 2, \"width\": 1\x7d"
    let large := "[18446744073709551615, 4, []]"
    s.cells.length = s.width * s.height ∧ ofDocument s.toDocument = .ok s ∧
    wide.cells.length = wide.width * wide.height ∧ ofDocument wide.toDocument = .ok wide ∧
    missing.utf8ByteSize ≤ maxObjectBytes ∧ written? missing = some ⟨1, 2, [.empty]⟩ ∧
    ofDocument missing = .error (.lengthMismatch 8 4) ∧
    large.utf8ByteSize ≤ maxObjectBytes ∧ written? large = some ⟨maxCount, 4, []⟩ ∧
    ofDocument large = .error (.lengthMismatch maxCount 0) := by
  intro s wide missing large
  obtain ⟨hback, hread⟩ := ofDocument_exact
  have hmissing : missing.utf8ByteSize ≤ maxObjectBytes := by decide
  have hlarge : large.utf8ByteSize ≤ maxObjectBytes := by decide
  have hwritten : written? missing = some ⟨1, 2, [.empty]⟩ := by decide +kernel
  have hwrittenLarge : written? large = some ⟨maxCount, 4, []⟩ := by decide +kernel
  obtain ⟨-, -, hrefused⟩ := hread missing hmissing
  obtain ⟨-, -, hrefusedLarge⟩ := hread large hlarge
  exact ⟨rfl, hback 1 2 s.cells rfl, rfl,
    hback 0xFFFFFFFFFFFFFFFF 0 [] rfl, hmissing, hwritten,
    (hrefused _ hwritten).2 (by decide), hlarge, hwrittenLarge,
    (hrefusedLarge _ hwrittenLarge).2 (by decide)⟩

end RemoteScreen.Snapshot
