import Mathlib.Data.List.Infix
import RemoteScreen.Proofs.Connection.Calls

/-! The stream of bytes that a connection sends, cut into whole cells and runs of queued bytes. A
flush cuts a cell only at the end of its buffer, keeps the rest as the tail, and sends that before
anything else; and it goes on to the screen only behind a queue that is drained, so no cell comes
between two bytes of one accepted write (`Framing`). -/

namespace RemoteScreen
namespace Connection

/-- A piece of the output that no other piece comes between. -/
inductive Block where
  /-- The whole sequence of a cell. -/
  | cell (bytes : List UInt8)
  | queued (bytes : List UInt8)

/-- The bytes of a block of either kind. -/
def Block.bytes : Block → List UInt8
  | cell bytes => bytes
  | queued bytes => bytes

/-- The part of a block that was queued. -/
def Block.fromQueue : Block → List UInt8
  | cell _ => []
  | queued bytes => bytes

/-- The bytes `out` are some blocks without the last bytes of the last one. The blocks hold the
writes without `unsent`, and each cell among them follows a whole number of writes. -/
structure Framing (whole : List UInt8 → Prop) (ws : List (List UInt8)) (unsent rest out : List UInt8)
    (blocks : List Block) : Prop where
  stream : blocks.flatMap Block.bytes = out ++ rest
  incomplete : rest = [] ∨ ∃ pre part, part ≠ [] ∧ blocks = pre ++ [.cell (part ++ rest)]
  writes : blocks.flatMap Block.fromQueue ++ unsent = ws.flatten
  cells : ∀ b, .cell b ∈ blocks → whole b
  atomic : ∀ pre b, pre ++ [.cell b] <+: blocks →
    ∃ vs, vs <+: ws ∧ pre.flatMap Block.fromQueue = vs.flatten

variable {c d : Connection} {r : Request} {capacity : Nat} {whole : List UInt8 → Prop}
  {ws : List (List UInt8)} {unsent rest out : List UInt8} {blocks : List Block}

/-! ### Growing streams -/

namespace Framing

theorem accept (h : Framing whole ws unsent rest out blocks) (w : List UInt8) :
    Framing whole (ws ++ [w]) (unsent ++ w) rest out blocks := by
  refine ⟨h.stream, h.incomplete, ?_, h.cells, fun pre b hpre => ?_⟩
  · rw [← List.append_assoc, h.writes, List.flatten_append, List.flatten_singleton]
  · obtain ⟨vs, hvs, heq⟩ := h.atomic pre b hpre
    exact ⟨vs, hvs.trans (List.prefix_append ws [w]), heq⟩

/-- More of a cell that has been cut, but not all. -/
theorem sendRest (h : Framing whole ws unsent rest out blocks) {n : Nat} (hn : n < rest.length) :
    Framing whole ws unsent (rest.drop n) (out ++ rest.take n) blocks := by
  refine ⟨?_, Or.inr ?_, h.writes, h.cells, h.atomic⟩
  · rw [List.append_assoc, List.take_append_drop]
    exact h.stream
  · rcases h.incomplete with hnil | ⟨pre, part, hpart, heq⟩
    · rw [hnil] at hn
      cases hn
    · refine ⟨pre, part ++ rest.take n, fun hnil => hpart (List.append_eq_nil_iff.mp hnil).1, ?_⟩
      rw [List.append_assoc, List.take_append_drop]
      exact heq

/-- The rest of a cell that has been cut, and then queued bytes. -/
theorem sendQueued (h : Framing whole ws unsent rest out blocks) (n : Nat) :
    Framing whole ws (unsent.drop n) [] (out ++ (rest ++ unsent.take n))
      (blocks ++ [.queued (unsent.take n)]) := by
  refine ⟨?_, Or.inl rfl, ?_, fun b hb => ?_, fun pre b hpre => ?_⟩
  · rw [List.flatMap_append, h.stream, List.append_nil, ← List.append_assoc]
    exact congrArg _ (List.append_nil _)
  · rw [List.flatMap_append, List.append_assoc]
    show _ ++ (unsent.take n ++ [] ++ unsent.drop n) = _
    rw [List.append_nil, List.take_append_drop]
    exact h.writes
  · rcases List.mem_append.mp hb with hb | hb
    · exact h.cells b hb
    · cases List.mem_singleton.mp hb
  · rcases List.prefix_concat_iff.mp hpre with heq | hpre
    · cases List.singleton_inj.mp (List.append_inj' heq rfl).2
    · exact h.atomic pre b hpre

theorem sendQueue (h : Framing whole ws unsent rest out blocks) :
    Framing whole ws [] [] (out ++ (rest ++ unsent)) (blocks ++ [.queued unsent]) := by
  have hall := h.sendQueued unsent.length
  rwa [List.take_length, List.drop_length] at hall

theorem sendCell (h : Framing whole ws [] [] out blocks) {bytes : List UInt8} (hb : whole bytes) :
    Framing whole ws [] [] (out ++ bytes) (blocks ++ [.cell bytes]) := by
  have hwrites : blocks.flatMap Block.fromQueue = ws.flatten :=
    (List.append_nil _).symm.trans h.writes
  refine ⟨?_, Or.inl rfl, ?_, fun b hmem => ?_, fun pre b hpre => ?_⟩
  · rw [List.flatMap_append, h.stream, List.append_nil, List.append_nil]
    exact congrArg _ (List.append_nil _)
  · rw [List.flatMap_append, hwrites]
    exact (List.append_nil _).trans (List.append_nil _)
  · rcases List.mem_append.mp hmem with hmem | hmem
    · exact h.cells b hmem
    · cases List.mem_singleton.mp hmem
      exact hb
  · rcases List.prefix_concat_iff.mp hpre with heq | hpre
    · exact ⟨ws, List.prefix_rfl, (List.append_inj' heq rfl).1 ▸ hwrites⟩
    · exact h.atomic pre b hpre

theorem sendCells (h : Framing whole ws [] [] out blocks) {bs : List (List UInt8)}
    (hbs : ∀ b ∈ bs, whole b) :
    Framing whole ws [] [] (out ++ bs.flatten) (blocks ++ bs.map .cell) := by
  induction bs generalizing out blocks with
  | nil =>
    rw [List.flatten_nil, List.map_nil, List.append_nil, List.append_nil]
    exact h
  | cons b bs ih =>
    have hrest := ih (h.sendCell (hbs b List.mem_cons_self))
      (fun b' hb' => hbs b' (List.mem_cons_of_mem _ hb'))
    rwa [List.append_assoc, List.append_assoc] at hrest

/-- The last bytes of a cell, kept back. -/
theorem keep (h : Framing whole ws unsent [] (out ++ rest) blocks)
    (hlast : rest = [] ∨ ∃ pre part, part ≠ [] ∧ blocks = pre ++ [.cell (part ++ rest)]) :
    Framing whole ws unsent rest out blocks :=
  { h with
    stream := h.stream.trans (List.append_nil _)
    incomplete := hlast }

end Framing

/-! ### Runs -/

/-- What has been sent so far is framed, the tail of a split cell is the rest of the last block, and
the queue holds what has not been sent of the writes. -/
def Framed (whole : List UInt8 → Prop) (ws : List (List UInt8)) (out : List UInt8) (c : Connection) :
    Prop :=
  ∃ blocks, Framing whole ws c.outbound.pending c.screen.tail.pending out blocks

theorem Framed.flush (h : Framed whole ws out c) (hcell : ∀ b, c.screen.IsCell b → whole b)
    (capacity : Nat) : Framed whole ws (out ++ (c.flush capacity).1.bytes) (c.flush capacity).2 := by
  obtain ⟨blocks, h⟩ := h
  rcases c.flush_cases capacity with ⟨hlt, heq⟩ | ⟨-, -, heq⟩ | ⟨-, o, t, hsend, heq⟩
  · rw [← ByteQueue.length_pending] at hlt
    have hrest := h.sendRest hlt
    rw [← ByteQueue.pending_send] at hrest
    rw [heq]
    exact ⟨blocks, hrest⟩
  · have hqueued := h.sendQueued (capacity - c.screen.tail.size)
    rw [← ByteQueue.pending_send] at hqueued
    rw [heq]
    exact ⟨_, hqueued⟩
  · obtain ⟨bs, hbs, hwhole, hlast⟩ := Screen.sendAfter_cells rfl hsend
    have hready : ∀ b, c.ready.withoutTail.IsCell b → whole b := by
      intro b hb
      refine hcell b ?_
      unfold ready at hb
      split at hb <;> exact hb
    have hall := h.sendQueue.sendCells fun b hb => hready b (hwhole b hb)
    have hout : out ++ (c.screen.tail.pending ++ c.outbound.pending) ++ bs.flatten =
        out ++ (c.screen.tail.pending ++ c.outbound.pending ++ o.bytes) ++ t.tail.pending := by
      rw [hbs]
      simp only [List.append_assoc]
    rw [hout] at hall
    rw [heq]
    refine ⟨_, hall.keep (hlast.imp_right ?_)⟩
    rintro ⟨pre, part, hpart, rfl⟩
    refine ⟨blocks ++ [.queued c.outbound.pending] ++ pre.map .cell, part, hpart, ?_⟩
    rw [List.map_append, ← List.append_assoc]
    rfl

theorem Framed.call (h : Framed whole ws out c) (hcell : ∀ b, c.screen.IsCell b → whole b)
    {k : Call} (hk : k.Indirect) :
    Framed whole (ws ++ c.acceptedBy k) (out ++ (c.call k).1) (c.call k).2 := by
  rcases c.call_cases hk with ⟨d, heq, hq, hnone⟩ | ⟨r, rfl, hroom⟩ | ⟨capacity, rfl⟩
  · rw [heq, hnone, List.append_nil, List.append_nil]
    unfold Framed
    rw [hq.outbound, Screen.edits_tail_eq hq.screen]
    exact h
  · obtain ⟨blocks, h⟩ := h
    rw [acceptedBy, Connection.call, submit_of_hasRoom hroom, if_pos rfl, List.append_nil]
    refine ⟨blocks, ?_⟩
    rw [Request.tail_screenAfter]
    exact h.accept r.encode
  · rw [show c.acceptedBy (.flush capacity) = [] from rfl, List.append_nil]
    exact h.flush hcell capacity

theorem Framed.run (h : Framed whole ws out c) {calls : List Call} (hcalls : ∀ k ∈ calls, k.Indirect)
    (hcell : ∀ p, p <+: calls → ∀ b, (c.run p).2.screen.IsCell b → whole b) :
    Framed whole (ws ++ c.accepted calls) (out ++ (c.run calls).1) (c.run calls).2 := by
  induction calls generalizing c ws out with
  | nil =>
    rw [accepted, run_nil, List.append_nil, List.append_nil]
    exact h
  | cons k ks ih =>
    rw [accepted, run_cons, ← List.append_assoc, ← List.append_assoc]
    refine ih (h.call (hcell [] List.nil_prefix) (hcalls k List.mem_cons_self))
      (fun j hj => hcalls j (List.mem_cons_of_mem _ hj)) fun p hp => ?_
    exact hcell (k :: p) (List.cons_prefix_cons.mpr ⟨rfl, hp⟩)

/-! ### Whole runs -/

/-- The bytes are the whole sequence of a cell of the screen, at some moment of a run. -/
def CellOfRun (c : Connection) (calls : List Call) (bytes : List UInt8) : Prop :=
  ∃ p, p <+: calls ∧ (c.run p).2.screen.IsCell bytes

theorem framed_of_opened {settings : ConnectionSettings} (hnew : Opened settings c) :
    Framed whole (openingWrites settings) [] c := by
  obtain ⟨⟨width, height, style, s, hs, hedits⟩, hout⟩ := hnew.frame
  refine ⟨[], ?_⟩
  rw [Screen.edits_tail_eq hedits, Screen.tail_of_create hs, hout]
  exact ⟨rfl, Or.inl rfl, rfl, fun _ hb => (nomatch hb), fun pre b hpre =>
    absurd (List.prefix_nil.mp hpre) (List.append_ne_nil_of_right_ne_nil _ (List.cons_ne_nil _ _))⟩

/-- Whatever a new connection takes, all that it has sent is cut into whole cells of its screen and
runs of queued bytes, up to the end of the last cell; the queued bytes are those of the accepted
writes in their order, without the bytes that are still queued; and no cell stands between two bytes
of one write. -/
theorem outbound_framed {settings : ConnectionSettings} {c₀ : Connection}
    (hnew : Opened settings c₀) (calls : List Call) (hcalls : ∀ k ∈ calls, k.Indirect) :
    ∃ blocks rest unsent, unsent.length = (c₀.run calls).2.queued ∧
      Framing (c₀.CellOfRun calls) (openingWrites settings ++ c₀.accepted calls) unsent rest
        (c₀.run calls).1 blocks := by
  have hcell : ∀ p, p <+: calls → ∀ b, (c₀.run p).2.screen.IsCell b → c₀.CellOfRun calls b :=
    fun p hp b hb => ⟨p, hp, hb⟩
  obtain ⟨blocks, h⟩ := (framed_of_opened hnew).run hcalls hcell
  exact ⟨blocks, (c₀.run calls).2.screen.tail.pending, (c₀.run calls).2.outbound.pending,
    ByteQueue.length_pending _, h⟩

/-- Settings under which the opening leaves room for two more bytes. -/
def shortQueue : ConnectionSettings where
  outboundCapacity := 14
  negotiateOnCreate := true

/-- The opening and a cell are cut, one write goes out in two parts, another one is refused. -/
def cuttingCalls : List Call :=
  [.flush 5, .submit (.text "abcd"), .submit .clearScreen, .flush 12, .flush 7,
    .submit (.bytes [0x41, 0x42, 0x43]), .screen (.perform (.put 0 0 0x20AC)), .flush 9, .flush 2,
    .flush 40, .submit .resetStyle, .flush 4]

theorem outbound_framed_short_queue : ∃ c₀, Opened shortQueue c₀ ∧
    c₀.accepted cuttingCalls = [[0x61, 0x62, 0x63, 0x64], [0x41, 0x42, 0x43], [0x1B, 0x5B, 0x6D]] ∧
    ∃ blocks rest unsent, unsent.length = (c₀.run cuttingCalls).2.queued ∧
      Framing (c₀.CellOfRun cuttingCalls) (openingWrites shortQueue ++ c₀.accepted cuttingCalls)
        unsent rest (c₀.run cuttingCalls).1 blocks := by
  obtain ⟨c₀, hnew, hacc⟩ : ∃ c₀, Opened shortQueue c₀ ∧
      c₀.accepted cuttingCalls = [[0x61, 0x62, 0x63, 0x64], [0x41, 0x42, 0x43], [0x1B, 0x5B, 0x6D]] :=
    ⟨_, .create (rfl : Screen.create 2 1 .defaultStyle = .ok _) [] rfl, by decide +kernel⟩
  exact ⟨c₀, hnew, hacc, outbound_framed hnew cuttingCalls (by decide)⟩

end Connection
end RemoteScreen
