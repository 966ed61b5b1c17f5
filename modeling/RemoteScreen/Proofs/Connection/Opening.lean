import Mathlib.Data.List.Infix
import RemoteScreen.Proofs.Connection.Calls

/-! How a connection begins that negotiates as it is made. The negotiation is queued like any other
write, before anything else can be, and no cell has been split yet. So whatever is called later, it
stays in front of all that goes out (`Opens`), and a flush leaves nothing pending only once it has
sent the whole queue. Where the queue has no room for it, the connection begins without it. -/

namespace RemoteScreen
namespace Connection

variable {c : Connection} {sent rest more : List UInt8}

/-- A connection that has sent `sent` has sent the negotiation first, or what is left of it stands at
the front of the queue, with no split cell before it. -/
inductive Opens (sent : List UInt8) (c : Connection) : Prop where
  | waiting {rest : List UInt8} (hall : sent ++ rest = negotiation)
      (hqueue : rest <+: c.outbound.pending) (htail : c.screen.tail.pending = [])
  | begun (h : negotiation <+: sent)

namespace Opens

theorem prefix_or (h : Opens sent c) : sent <+: negotiation ∨ negotiation <+: sent := by
  cases h with
  | waiting hall => exact Or.inl ⟨_, hall⟩
  | begun h => exact Or.inr h

theorem begun_of_append (hall : sent ++ rest = negotiation) (more : List UInt8) :
    Opens (sent ++ (rest ++ more)) c := by
  refine .begun ?_
  rw [← hall, ← List.append_assoc]
  exact List.prefix_append _ more

/-- Calls that send nothing may queue bytes behind the others. -/
theorem quiet {d : Connection} (h : Opens sent c) (hqueue : c.outbound.pending <+: d.outbound.pending)
    (htail : d.screen.tail = c.screen.tail) : Opens sent d := by
  cases h with
  | waiting hall hrest hnone => exact .waiting hall (hrest.trans hqueue) (htail ▸ hnone)
  | begun h => exact .begun h

/-- A flush that leaves nothing pending has sent the negotiation, if not an earlier one has. -/
theorem flush (h : Opens sent c) (capacity : Nat) :
    Opens (sent ++ (c.flush capacity).1.bytes) (c.flush capacity).2 ∧
      ((c.flush capacity).1.pending = false → negotiation <+: sent ++ (c.flush capacity).1.bytes) := by
  cases h with
  | begun h =>
    have hall := h.trans (List.prefix_append sent (c.flush capacity).1.bytes)
    exact ⟨.begun hall, fun _ => hall⟩
  | @waiting rest hall hqueue htail =>
    have hsize : c.screen.tail.size = 0 := (ByteQueue.pending_eq_nil_iff _).mp htail
    obtain ⟨more, hmore⟩ := hqueue
    rcases c.flush_cases capacity with ⟨hlt, -⟩ | ⟨-, -, heq⟩ | ⟨-, o, t, -, heq⟩
    · omega
    · rw [heq, htail, hsize, List.nil_append, Nat.sub_zero, ← hmore]
      refine ⟨?_, fun hpend => nomatch hpend⟩
      rcases Nat.le_total capacity rest.length with hle | hge
      · -- The buffer ends within the negotiation.
        rw [List.take_append_of_le_length hle]
        have hleft : sent ++ rest.take capacity ++ rest.drop capacity = negotiation := by
          rw [List.append_assoc, List.take_append_drop, hall]
        refine .waiting hleft ?_ rfl
        rw [ByteQueue.pending_send, ← hmore, List.drop_append_of_le_length hle]
        exact List.prefix_append _ more
      · rw [List.take_append, List.take_of_length_le hge]
        exact begun_of_append hall _
    · rw [heq, htail, List.nil_append, ← hmore, List.append_assoc]
      have hbegun : Opens (sent ++ (rest ++ (more ++ o.bytes))) { c with screen := t, outbound := .empty } :=
        begun_of_append hall _
      refine ⟨hbegun, fun _ => ?_⟩
      rw [← hall, ← List.append_assoc]
      exact List.prefix_append _ _

theorem call (h : Opens sent c) {k : Call} (hk : k.Indirect) :
    Opens (sent ++ (c.call k).1) (c.call k).2 := by
  rcases c.call_cases hk with ⟨d, heq, hquiet, -⟩ | ⟨r, rfl, hroom⟩ | ⟨capacity, rfl⟩
  · rw [heq, List.append_nil]
    exact h.quiet (hquiet.outbound ▸ List.prefix_rfl) (Screen.edits_tail_eq hquiet.screen)
  · rw [Connection.call, submit_of_hasRoom hroom, List.append_nil]
    exact h.quiet (List.prefix_append _ r.encode) (r.tail_screenAfter c.screen)
  · exact (h.flush capacity).1

theorem run (h : Opens sent c) {calls : List Call} (hcalls : ∀ k ∈ calls, k.Indirect) :
    Opens (sent ++ (c.run calls).1) (c.run calls).2 := by
  induction calls generalizing c sent with
  | nil =>
    rw [run_nil, List.append_nil]
    exact h
  | cons k ks ih =>
    obtain ⟨hk, hks⟩ := List.forall_mem_cons.mp hcalls
    rw [run_cons, ← List.append_assoc]
    exact ih (h.call hk) hks

end Opens

/-! ### New connections -/

theorem frame_of_ofSettings {s : Settings} (h : ofSettings s = .ok c) :
    c.screen.tail = .empty ∧ c.outbound.pending = (openingWrites s.connection).flatten := by
  obtain ⟨screen, hnew, heq⟩ := exists_screen s
  obtain ⟨hscreen, hqueue⟩ := create_frame (heq ▸ h)
  exact ⟨hscreen ▸ Screen.tail_of_create hnew, hqueue⟩

/-- With settings that ask for the negotiation, valid or not, a connection is made exactly if its queue
can be addressed. If the queue has room for the twelve bytes of the negotiation, then whatever is
called, all that has been sent begins with them or is a beginning of them, and no flush leaves nothing
pending before all of them have been sent. If it has less room, the connection begins without them. -/
theorem begins_with_negotiation {s : Settings} (hnegotiate : s.connection.negotiateOnCreate = true) :
    let capacity := s.connection.outboundCapacity.toNat
    negotiation = [0xFF, 0xFB, 1, 0xFF, 0xFE, 1, 0xFF, 0xFB, 3, 0xFF, 0xFD, 31] ∧
    ((∃ c₀, ofSettings s = .ok c₀) ↔ capacity ≤ maxObjectBytes) ∧
    ∀ c₀, ofSettings s = .ok c₀ →
      (12 ≤ capacity → ∀ calls : List Call, (∀ k ∈ calls, k.Indirect) →
        ((c₀.run calls).1 <+: negotiation ∨ negotiation <+: (c₀.run calls).1) ∧
        ∀ n, ((c₀.run calls).2.flush n).1.pending = false →
          negotiation <+: (c₀.run (calls ++ [.flush n])).1) ∧
      (capacity < 12 → c₀.queued = 0) := by
  intro capacity
  refine ⟨rfl, exists_ofSettings_iff s, fun c₀ hnew => ?_⟩
  obtain ⟨htail, hqueue⟩ := frame_of_ofSettings hnew
  refine ⟨fun hroom calls hcalls => ?_, fun hroom => ?_⟩
  · have hopening : openingWrites s.connection = [negotiation] := if_pos ⟨hnegotiate, hroom⟩
    rw [hopening, List.flatten_singleton] at hqueue
    have hopens : Opens [] c₀ := .waiting (List.nil_append _) (hqueue ▸ List.prefix_rfl) (htail ▸ rfl)
    have hrun := hopens.run hcalls
    rw [List.nil_append] at hrun
    refine ⟨hrun.prefix_or, fun n hpend => ?_⟩
    rw [run_append, run_cons, run_nil, List.append_nil]
    exact (hrun.flush n).2 hpend
  · have hopening : openingWrites s.connection = [] := if_neg fun h => Nat.not_le_of_lt hroom h.2
    rw [queued, ← ByteQueue.length_pending, hqueue, hopening]
    rfl

/-- Settings of a small screen that ask for the negotiation. -/
def negotiating (capacity : UInt64) : Settings where
  screen := { columns := 1, rows := 1 }
  connection := {
    outboundCapacity := capacity, minColumns := 1, minRows := 1, negotiateOnCreate := true }

/-- One write is refused and one is queued behind the last byte of the negotiation; a cell is drawn, and
the size of the window is reported. -/
def behindNegotiation : List Call :=
  [.submit .clearScreen, .flush 0, .flush 5, .screen (.perform (.put 0 0 0x41)), .flush 6,
    .submit (.text "abcd"), .parse [0xFF, 0xFA, 31, 0, 2, 0, 1, 0xFF, 0xF0]]

theorem begins_with_negotiation_cut : ∃ c₀ sent c, (negotiating 12).validate = .ok () ∧
    (negotiating 12).connection.negotiateOnCreate = true ∧ ofSettings (negotiating 12) = .ok c₀ ∧
    (∀ k ∈ behindNegotiation, k.Indirect) ∧ c₀.run behindNegotiation = (sent, c) ∧
    (sent <+: negotiation ∨ negotiation <+: sent) ∧ sent.length = 11 ∧
    c.outbound.pending = [31, 0x61, 0x62, 0x63, 0x64] ∧ (c.flush 100).1.pending = false ∧
    negotiation <+: (c₀.run (behindNegotiation ++ [.flush 100])).1 := by
  obtain ⟨c₀, hnew, hlength, hqueue, hpend⟩ : ∃ c₀, ofSettings (negotiating 12) = .ok c₀ ∧
      (c₀.run behindNegotiation).1.length = 11 ∧
      (c₀.run behindNegotiation).2.outbound.pending = [31, 0x61, 0x62, 0x63, 0x64] ∧
      ((c₀.run behindNegotiation).2.flush 100).1.pending = false :=
    ⟨_, rfl, by decide +kernel, by decide +kernel, by decide +kernel⟩
  obtain ⟨-, -, hruns⟩ := begins_with_negotiation (s := negotiating 12) rfl
  obtain ⟨hroom, -⟩ := hruns c₀ hnew
  have hindirect : ∀ k ∈ behindNegotiation, k.Indirect := by decide
  obtain ⟨hbegins, hdrained⟩ := hroom (by decide) behindNegotiation hindirect
  exact ⟨c₀, (c₀.run behindNegotiation).1, (c₀.run behindNegotiation).2, by decide, rfl, hnew,
    hindirect, (Prod.eta _).symm, hbegins, hlength, hqueue, hpend, hdrained 100 hpend⟩

/-- Valid settings that ask for the negotiation and have no room for it: the connection sends its one
cell and nothing else. -/
theorem sends_no_negotiation_without_room : ∃ c₀, (negotiating 11).validate = .ok () ∧
    (negotiating 11).connection.negotiateOnCreate = true ∧
    ofSettings (negotiating 11) = .ok c₀ ∧ (c₀.flush 100).1.pending = false ∧
    ¬((c₀.run [.flush 100]).1 <+: negotiation ∨ negotiation <+: (c₀.run [.flush 100]).1) :=
  ⟨_, by decide, rfl, rfl, by decide +kernel, by decide +kernel⟩

end Connection
end RemoteScreen
