import RemoteScreen.Proofs.Cell.Canonical
import RemoteScreen.Proofs.Screen.Sequences
import RemoteScreen.Snapshot.Form

/-! The cells that a screen stores. Drawing in a style clears the unused bit, and so do all ways of
making cells and loading snapshots, but for JSON. So a screen whose callers take no such word from
JSON stores canonical cells only, and sends no cell again whose fields have not changed. -/

namespace RemoteScreen

namespace Snapshot

/-- The snapshots that loading leads to, if of those read from JSON only those count whose cells
satisfy `taken`. -/
inductive Loaded (taken : Cell → Prop) : Snapshot → Prop where
  | ofBytes {width height : Nat} {bytes : List UInt8} {s : Snapshot}
      (h : ofBytes width height bytes = .ok s) : Loaded taken s
  | ofDocument {document : String} {s : Snapshot} (h : ofDocument document = .ok s)
      (htaken : ∀ c ∈ s.cells, taken c) : Loaded taken s

theorem canonical_unpack (bytes : List UInt8) : ∀ c ∈ unpack bytes, c.Canonical := by
  fun_induction unpack bytes with
  | case1 b₀ b₁ b₂ b₃ rest ih =>
    intro c hc
    rcases List.mem_cons.mp hc with rfl | hc
    · exact Cell.canonical_ofBits _
    · exact ih c hc
  | case2 => exact fun _ hc => nomatch hc

theorem Loaded.canonical {s : Snapshot} (h : Loaded Cell.Canonical s) :
    ∀ c ∈ s.cells, c.Canonical := by
  cases h with
  | @ofBytes width height bytes _ h =>
    unfold Snapshot.ofBytes at h
    dsimp only at h
    split at h
    · cases h
      exact canonical_unpack bytes
    · cases h
  | ofDocument _ htaken => exact htaken

end Snapshot

namespace Screen

variable {all : Bool} {capacity start used : Nat} {s t u : Screen} {a : Action} {es : List Emission}

/-- The cells and snapshots that an action is given have been made and loaded in the public ways. -/
def Action.Supplied (taken : Cell → Prop) : Action → Prop
  | .blit _ _ _ _ cells => ∀ c ∈ cells, c.Made taken
  | .restore snapshot => snapshot.Loaded taken
  | _ => True

/-- The cells and snapshots that a call is given have been made and loaded in the public ways. -/
def Call.Supplied (taken : Cell → Prop) : Call → Prop
  | .perform a => a.Supplied taken
  | _ => True

theorem Action.Supplied.canonical (h : a.Supplied Cell.Canonical) : ∀ c ∈ a.cells, c.Canonical := by
  cases a with
  | blit x y w h' cells => exact fun c hc => (h c hc).canonical
  | restore snapshot => exact Snapshot.Loaded.canonical h
  | _ => exact fun _ hc => nomatch hc

/-- What should show and what has been shown is canonical. -/
structure CanonicalCells (s : Screen) : Prop where
  target : ∀ c ∈ s.target, c.Canonical
  shown : ∀ c ∈ s.shown, c.Canonical

theorem canonicalCells_of_create {width height : Nat} {style : Cell}
    (h : create width height style = .ok s) : CanonicalCells s := by
  have hblank : ∀ c ∈ Array.replicate (width * height) (blank style.style), c.Canonical := by
    intro c hc
    rw [(Array.mem_replicate.mp hc).2]
    exact Cell.canonical_withCodePoint _ _
  obtain ⟨-, rfl⟩ := create_inv h
  exact ⟨hblank, hblank⟩

namespace CanonicalCells

/-! ### Actions -/

theorem get? (h : CanonicalCells s) {x y : Nat} {c : Cell} (hc : s.get? x y = some c) :
    c.Canonical := by
  unfold Screen.get? at hc
  split at hc
  · exact h.target c (Array.mem_of_getElem? hc)
  · cases hc

theorem reshape (h : CanonicalCells s) (width height : Nat) :
    CanonicalCells (s.reshape width height) := by
  have hblank : (blank s.defaultStyle).Canonical := Cell.canonical_withCodePoint _ _
  unfold Screen.reshape
  split
  · exact h
  refine ⟨fun c hc => ?_, fun c hc => ?_⟩
  · obtain ⟨i, rfl⟩ := Array.mem_ofFn.mp hc
    cases hget : s.get? (i % width) (i / width) with
    | none => exact hblank
    | some d => exact h.get? hget
  · rw [(Array.mem_replicate.mp hc).2]
    exact hblank

theorem effect (h : CanonicalCells s) (hcells : ∀ c ∈ a.cells, c.Canonical) (he : Effect s a t) :
    CanonicalCells t := by
  cases he with
  | draw _ _ hnew =>
    refine ⟨fun c hc => ?_, h.shown⟩
    rcases hnew c hc with hold | hgiven | ⟨cp, rfl⟩
    · exact h.target c hold
    · exact hcells c hgiven
    · exact Cell.canonical_withCodePoint _ _
  | resize => exact h.reshape _ _
  | @restore snapshot _ _ hnew =>
    have hresized := h.reshape snapshot.width snapshot.height
    refine ⟨fun c hc => ?_, hresized.shown⟩
    rcases hnew c hc with hold | hgiven
    · exact hresized.target c hold
    · exact hcells c hgiven
  | repaintAlways => exact ⟨h.target, h.shown⟩
  | repaintOnce => exact ⟨h.target, h.shown⟩
  | forgetPeer => exact ⟨h.target, h.shown⟩

/-! ### Sending -/

theorem advance (h : CanonicalCells s) (hp : s.position < s.target.size) :
    CanonicalCells (s.advance hp) := by
  refine ⟨h.target, fun c hc => ?_⟩
  rcases Array.mem_or_eq_of_mem_setIfInBounds hc with hold | rfl
  · exact h.shown c hold
  · exact h.target _ (Array.getElem_mem hp)

theorem sends (h : CanonicalCells s) (hs : Sends all s es u) : CanonicalCells u := by
  induction hs with
  | done => exact h
  | skip _ _ _ ih => exact ih ⟨h.target, h.shown⟩
  | send hp _ _ ih => exact ih (h.advance hp)

theorem stop {o : Output} (h : CanonicalCells u) (hs : Stop all capacity used u o t) :
    CanonicalCells t := by
  cases hs with
  | complete => exact ⟨h.target, h.shown⟩
  | full => exact h
  | split hp =>
    have hnext := h.advance hp
    exact ⟨hnext.target, hnext.shown⟩

theorem sendAfter (h : CanonicalCells s) (capacity start : Nat) :
    CanonicalCells (s.sendAfter capacity start).2 := by
  rcases s.sendAfter_cases capacity start with ⟨-, heq⟩ | ⟨-, es, u, o, t, hs, hstop, heq⟩
  · rw [heq]
    exact ⟨h.target, h.shown⟩
  · have hwithout : CanonicalCells s.withoutTail := ⟨h.target, h.shown⟩
    rw [heq]
    exact (hwithout.sends hs).stop hstop

theorem call (h : CanonicalCells s) {k : Call} (hk : k.Supplied Cell.Canonical) :
    CanonicalCells (s.call k).2 := by
  cases k with
  | perform a =>
    simp only [Screen.call]
    split
    next ha => exact h.effect (Action.Supplied.canonical hk) (effect_of_perform ha)
    next => exact h
  | flush capacity start =>
    simp only [Screen.call]
    split
    next o t ho =>
      obtain ⟨-, heq⟩ := flushAfter_eq_ok.mp ho
      have ht := h.sendAfter capacity start
      rwa [heq] at ht
    next => exact h
  | finishCell capacity => exact ⟨h.target, h.shown⟩

theorem run (h : CanonicalCells s) {calls : List Call}
    (hcalls : ∀ k ∈ calls, k.Supplied Cell.Canonical) : CanonicalCells (s.run calls).2 := by
  induction calls generalizing s with
  | nil => exact h
  | cons k ks ih =>
    exact ih (h.call (hcalls k List.mem_cons_self)) fun j hj =>
      hcalls j (List.mem_cons_of_mem _ hj)

end CanonicalCells

/-! ### Whole runs -/

/-- The screen keeps the cell, as one that should show or as one that has been shown. -/
def Stores (s : Screen) (c : Cell) : Prop :=
  c ∈ s.target ∨ c ∈ s.shown

/-- As long as no cell read from JSON has its unused bit set, no cell that a screen stores has. So two
of them are equal exactly if their fields are, and unless a repaint is due, all that a sending call
takes up are cells of which a field differs from what has been shown. -/
theorem stores_canonical_of_supplied {width height : Nat} {style : Cell} {s₀ : Screen}
    (hnew : create width height style = .ok s₀) (calls : List Call)
    (hcalls : ∀ k ∈ calls, k.Supplied Cell.Canonical) :
    let s := (s₀.run calls).2
    (∀ c, s.Stores c → c.bits &&& Cell.unusedMask = 0) ∧
    (∀ c d, s.Stores c → s.Stores d → (c = d ↔ c.SameFields d)) ∧
    (s.forcing = false → ∀ capacity start o t, s.flushAfter capacity start = .ok (o, t) →
      ∃ es : List Emission, o.bytes ++ t.tail.pending = s.tail.pending ++ bytesOf es ∧
        ∀ e ∈ es, s.IsSequence e ∧ ∃ c d, s.shown[e.index]? = some c ∧
          s.target[e.index]? = some d ∧ ¬c.SameFields d) := by
  intro s
  have hcells : CanonicalCells s := (canonicalCells_of_create hnew).run hcalls
  obtain ⟨hw, hk⟩ : WellFormed s ∧ s.Knows (s₀.lastSent none calls) := knows_of_run hnew rfl rfl
  have hcanonical : ∀ c, s.Stores c → c.Canonical := by
    rintro c (hc | hc)
    · exact hcells.target c hc
    · exact hcells.shown c hc
  refine ⟨hcanonical, fun c d hc hd => Cell.eq_iff_sameFields (hcanonical c hc) (hcanonical d hd), ?_⟩
  intro hforcing capacity start o t hflush
  obtain ⟨-, hsend⟩ := flushAfter_eq_ok.mp hflush
  obtain ⟨es, hbytes, hes⟩ := exists_taken hk capacity start
  rw [hsend] at hbytes
  refine ⟨es, hbytes, fun e he => ?_⟩
  obtain ⟨hsequence, hdue⟩ := hes e he
  obtain ⟨hindex, -⟩ := hsequence
  have hshown : e.index < s.shown.size := hw.size_eq ▸ hindex
  rw [isDue, hforcing, Bool.false_or, decide_eq_true_eq, Array.getElem?_eq_getElem hindex,
    Array.getElem?_eq_getElem hshown] at hdue
  refine ⟨(hes e he).1, _, _, Array.getElem?_eq_getElem hshown, Array.getElem?_eq_getElem hindex, ?_⟩
  intro hsame
  exact hdue (congrArg some (hsame.eq (hcells.shown _ (Array.getElem_mem hshown))
    (hcells.target _ (Array.getElem_mem hindex))))

/-- A white blank whose word has, or has not, the unused bit set. -/
def whiteBlank (unused : Bool) : Cell :=
  ⟨if unused then 0x87000020 else 0x07000020⟩

/-- The document of a single white blank, which has, or has not, the unused bit set. -/
def documentOf (unused : Bool) : String :=
  if unused then "\x7b\"width\": 1, \"height\": 1, \"cells\": [2264924192]\x7d"
  else "\x7b\"width\": 1, \"height\": 1, \"cells\": [117440544]\x7d"

theorem ofDocument_documentOf (unused : Bool) :
    Snapshot.ofDocument (documentOf unused) = .ok ⟨1, 1, [whiteBlank unused]⟩ := by
  cases unused <;> decide +kernel

/-- A snapshot is loaded from packed cells with the unused bit set, another one from JSON without it,
and a cell is drawn again in a red that it had already. -/
def suppliedCalls : List Call :=
  [.perform (.restore ⟨1, 1, [.ofBytes 0x41 0 0 0xFF]⟩), .flush 100 0,
    .perform (.restore ⟨1, 1, [whiteBlank false]⟩), .flush 20 0,
    .perform (.blit 0 0 1 1 [(Cell.ofBits 0x81000041).withForeground .red])]

theorem stores_canonical_of_loaded : ∃ s₀, create 2 1 .defaultStyle = .ok s₀ ∧
    (∀ k ∈ suppliedCalls, k.Supplied Cell.Canonical) ∧
    (s₀.run suppliedCalls).2.forcing = false ∧
    (∀ c, (s₀.run suppliedCalls).2.Stores c → c.bits &&& Cell.unusedMask = 0) ∧
    ∃ o t, (s₀.run suppliedCalls).2.flushAfter 9 1 = .ok (o, t) ∧
      ∃ es : List Emission,
        o.bytes ++ t.tail.pending = (s₀.run suppliedCalls).2.tail.pending ++ bytesOf es ∧
        ∀ e ∈ es, (s₀.run suppliedCalls).2.IsSequence e ∧ ∃ c d,
          (s₀.run suppliedCalls).2.shown[e.index]? = some c ∧
          (s₀.run suppliedCalls).2.target[e.index]? = some d ∧ ¬c.SameFields d := by
  have hsupplied : ∀ k ∈ suppliedCalls, k.Supplied Cell.Canonical := by
    intro k hk
    simp only [suppliedCalls, List.mem_cons, List.not_mem_nil, or_false] at hk
    rcases hk with rfl | rfl | rfl | rfl | rfl
    · exact .ofBytes (rfl : Snapshot.ofBytes 1 1 [0x41, 0, 0, 0xFF] = _)
    · trivial
    · refine .ofDocument (ofDocument_documentOf false) fun c hc => ?_
      rw [List.mem_singleton.mp hc]
      decide
    · trivial
    · intro c hc
      rw [List.mem_singleton.mp hc]
      exact .withForeground (.ofBits _) _
  obtain ⟨s₀, hnew, hforcing, o, t, hflush⟩ : ∃ s₀, create 2 1 .defaultStyle = .ok s₀ ∧
      (s₀.run suppliedCalls).2.forcing = false ∧
      ∃ o t, (s₀.run suppliedCalls).2.flushAfter 9 1 = .ok (o, t) :=
    ⟨_, rfl, by decide +kernel, _, _, rfl⟩
  obtain ⟨hstored, -, hsent⟩ := stores_canonical_of_supplied hnew suppliedCalls hsupplied
  exact ⟨s₀, hnew, hsupplied, hforcing, hstored, o, t, hflush, hsent hforcing 9 1 o t hflush⟩

/-- JSON gives a screen a cell that agrees in every field with the one shown, and is sent again. -/
theorem stores_unused_bit_of_document : ∃ s₀ snapshot, create 1 1 .defaultStyle = .ok s₀ ∧
    Snapshot.ofDocument (documentOf true) = .ok snapshot ∧
    let calls := [Call.flush 100 0, .perform (.restore snapshot)]
    (∀ k ∈ calls, k.Supplied fun _ => True) ∧
    let s := (s₀.run calls).2
    s.forcing = false ∧ s.Stores (whiteBlank true) ∧ s.Stores (whiteBlank false) ∧
    (whiteBlank true).bits &&& Cell.unusedMask ≠ 0 ∧ whiteBlank true ≠ whiteBlank false ∧
    (whiteBlank true).SameFields (whiteBlank false) ∧
    (s.flush 100).1 = ⟨ControlSequence.cursorPosition 0 0 ++ [0x20], false⟩ := by
  refine ⟨_, _, rfl, ofDocument_documentOf true, ?_, by decide +kernel, Or.inl (by decide +kernel),
    Or.inr (by decide +kernel), by decide, by decide, ⟨by decide, by decide, by decide, ?_⟩,
    by decide +kernel⟩
  · intro k hk
    simp only [List.mem_cons, List.not_mem_nil, or_false] at hk
    rcases hk with rfl | rfl
    · trivial
    · exact .ofDocument (ofDocument_documentOf true) fun _ _ => trivial
  · intro a
    cases a <;> decide

end Screen
end RemoteScreen
