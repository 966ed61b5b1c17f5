import RemoteScreen.Proofs.Screen.Due

/-! What a screen still has to send, whatever the buffers: the rest of its pass and, if that leaves a
difference behind, one more pass from the start (`Leads`). A sending call takes a part of it and
leaves the rest (`sendAfter_leads`). -/

namespace RemoteScreen
namespace Screen

variable {all : Bool} {capacity start : Nat} {s t u v : Screen} {es fs : List Emission}
  {bytes : List UInt8}

/-! ### The rest of a pass -/

theorem exists_sends (all : Bool) (s : Screen) :
    ∃ es u, Sends all s es u ∧ u.target.size ≤ u.position := by
  by_cases h : s.position < s.target.size
  · by_cases hd : Due all s
    · obtain ⟨es, u, hs, hu⟩ := exists_sends all (s.advance h)
      exact ⟨_, u, .send h hd hs, hu⟩
    · obtain ⟨es, u, hs, hu⟩ := exists_sends all { s with position := s.position + 1 }
      exact ⟨es, u, .skip h hd hs, hu⟩
  · exact ⟨[], s, .done s, Nat.le_of_not_lt h⟩
termination_by s.target.size - s.position
decreasing_by
  · show s.target.size - (s.position + 1) < _
    exact Nat.sub_succ_lt_self _ _ h
  · exact Nat.sub_succ_lt_self _ _ h

/-- The order of the cells is fixed: what a part of a pass sends is the beginning of what the whole
sends. -/
theorem Sends.residual (h : Sends all s es u) (hu : u.target.size ≤ u.position)
    (hpart : Sends all s fs v) : ∃ rest, es = fs ++ rest ∧ Sends all v rest u := by
  induction hpart generalizing es with
  | done s => exact ⟨es, rfl, h⟩
  | skip hp hd hs ih =>
    cases h with
    | done => exact absurd hp (Nat.not_lt_of_le hu)
    | skip _ _ hs' => exact ih hs'
    | send _ hd' _ => exact absurd hd' hd
  | send hp hd hs ih =>
    cases h with
    | done => exact absurd hp (Nat.not_lt_of_le hu)
    | skip _ hd' _ => exact absurd hd hd'
    | send _ _ hs' =>
      obtain ⟨rest, rfl, hrest⟩ := ih hs'
      exact ⟨rest, rfl, hrest⟩

/-- The end of a pass is fixed. -/
theorem Sends.unique (h : Sends all s es u) (hu : u.target.size ≤ u.position)
    (h' : Sends all s fs v) (hv : v.target.size ≤ v.position) : fs = es ∧ v = u := by
  obtain ⟨rest, rfl, hrest⟩ := h.residual hu h'
  cases hrest with
  | done => exact ⟨(List.append_nil _).symm, rfl⟩
  | skip hp => exact absurd hp (Nat.not_lt_of_le hv)
  | send hp => exact absurd hp (Nat.not_lt_of_le hv)

/-! ### Passes from the start -/

/-- Every cell behind the pass has been sent as it should show. -/
def Swept (s : Screen) : Prop :=
  ∀ i, i < s.position → s.shown[i]? = s.target[i]?

theorem Sends.swept (h : Sends all s es u) (hsize : s.shown.size = s.target.size) (hs : s.Swept) :
    u.Swept := by
  intro i hi
  rw [h.shown_eq hsize i, h.target_eq]
  split
  next => rfl
  next hbefore => exact hs i (Nat.lt_of_not_le fun hle => hbefore ⟨hle, hi⟩)

theorem swept_of_start (h : s.position = 0) : s.Swept := by
  intro i hi
  rw [h] at hi
  cases hi

theorem Sends.isClean_iff (h : Sends all s es u) (hu : u.target.size ≤ u.position)
    (hsize : s.shown.size = s.target.size) (htail : s.tail = .empty) :
    u.isClean = true ↔ s.Swept := by
  have hshown := h.shown_eq_of_end hu hsize
  rw [Screen.isClean_iff, h.target_eq, h.tail_eq, htail]
  constructor
  · rintro ⟨hall, -⟩ i hi
    have hkept := hshown i
    rwa [if_neg (Nat.not_le_of_lt hi), hall, eq_comm] at hkept
  · intro hs
    refine ⟨Array.ext_getElem? fun i => (hshown i).trans ?_, rfl⟩
    split
    next => rfl
    next hi => exact hs i (Nat.lt_of_not_le hi)

/-- A pass from the start leaves no difference. -/
theorem Sends.isClean (h : Sends all s es u) (hu : u.target.size ≤ u.position)
    (hsize : s.shown.size = s.target.size) (hstart : s.position = 0) (htail : s.tail = .empty) :
    u.isClean = true :=
  (h.isClean_iff hu hsize htail).mpr (swept_of_start hstart)

/-! ### What is left to send -/

/-- A screen without a tail sends `bytes` until nothing is pending, and is `t` then. -/
inductive Leads : Screen → List UInt8 → Screen → Prop where
  | clean {s u : Screen} {es : List Emission} (hs : Sends s.forcing s es u)
      (hu : u.target.size ≤ u.position) (hc : u.isClean = true) : Leads s (bytesOf es) u.endPass
  /-- Something was drawn behind the pass, and another one begins. -/
  | again {s t u : Screen} {es : List Emission} {bytes : List UInt8} (hs : Sends s.forcing s es u)
      (hu : u.target.size ≤ u.position) (hc : u.isClean = false) (hl : Leads u.endPass bytes t) :
      Leads s (bytesOf es ++ bytes) t

theorem exists_leads (hw : WellFormed s) (htail : s.tail = .empty) : ∃ bytes t, Leads s bytes t := by
  obtain ⟨es, u, hs, hu⟩ := exists_sends s.forcing s
  cases hc : u.isClean with
  | true => exact ⟨_, _, .clean hs hu hc⟩
  | false =>
    obtain ⟨fs, v, hs', hv⟩ := exists_sends u.endPass.forcing u.endPass
    have hwu := (hw.sends hs).endPass
    have htail' : u.endPass.tail = .empty := hs.tail_eq.trans htail
    -- The second pass begins at the start, so it leaves no difference.
    have hclean := hs'.isClean hv hwu.size_eq rfl htail'
    exact ⟨_, _, .again hs hu hc (.clean hs' hv hclean)⟩

theorem Leads.residual (h : Leads s bytes t) (hpart : Sends s.forcing s es u) :
    ∃ rest, bytes = bytesOf es ++ rest ∧ Leads u rest t := by
  have hforcing : u.forcing = s.forcing := hpart.forcing_eq
  cases h with
  | clean hs hu hc =>
    obtain ⟨rest, rfl, hrest⟩ := hs.residual hu hpart
    exact ⟨bytesOf rest, bytesOf_append _ _, .clean (hforcing ▸ hrest) hu hc⟩
  | again hs hu hc hl =>
    obtain ⟨rest, rfl, hrest⟩ := hs.residual hu hpart
    refine ⟨bytesOf rest ++ _, ?_, .again (hforcing ▸ hrest) hu hc hl⟩
    rw [← List.append_assoc]
    exact congrArg (· ++ _) (bytesOf_append _ _)

/-- What is left at the end of a pass. -/
theorem Leads.of_complete (h : Leads s bytes t) (hend : s.target.size ≤ s.position) :
    s.isClean = true ∧ bytes = [] ∧ t = s.endPass ∨ s.isClean = false ∧ Leads s.endPass bytes t := by
  cases h with
  | clean hs hu hc =>
    obtain ⟨rfl, rfl⟩ := (Sends.done s).unique hend hs hu
    exact Or.inl ⟨hc, rfl, rfl⟩
  | again hs hu hc hl =>
    obtain ⟨rfl, rfl⟩ := (Sends.done s).unique hend hs hu
    exact Or.inr ⟨hc, hl⟩

/-! ### One call -/

theorem withoutTail_of_empty (h : s.tail = .empty) : s.withoutTail = s := by
  rw [withoutTail, ← h]

/-- Where the pass stops, all that is left has been sent, or it is shared between this call and the
next ones. A stop that sends nothing, into a buffer in which nothing stands, ends a pass. -/
theorem Stop.leads {used : Nat} {o : Output} (hstop : Stop u.forcing capacity used u o v)
    (htail : u.tail = .empty) (h : Leads u bytes t) (hcap : 0 < capacity) :
    o.pending = false ∧ o.bytes = bytes ∧ v = t ∨
    o.pending = true ∧ ∃ rest, bytes = o.bytes ++ (v.tail.pending ++ rest) ∧
      Leads v.withoutTail rest t ∧ (0 < used + o.bytes.length ∨
        u.target.size ≤ u.position ∧ u.isClean = false ∧ v.position = 0) := by
  cases hstop with
  | complete hu =>
    rcases h.of_complete hu with ⟨hc, rfl, rfl⟩ | ⟨hc, hl⟩
    · exact Or.inl ⟨by rw [hc]; rfl, rfl, rfl⟩
    · have htail' : u.endPass.tail = .empty := htail
      refine Or.inr ⟨by rw [hc]; rfl, bytes, ?_, ?_, Or.inr ⟨hu, hc, rfl⟩⟩
      · rw [htail']
        rfl
      · rw [withoutTail_of_empty htail']
        exact hl
  | full hu hd hfull hused =>
    refine Or.inr ⟨rfl, bytes, ?_, ?_, Or.inl (Nat.pos_of_ne_zero fun hzero => ?_)⟩
    · rw [htail]
      rfl
    · rw [withoutTail_of_empty htail]
      exact h
    · exact Nat.ne_of_gt hcap (hused hzero)
  | split hu hd hused hcap hfull =>
    obtain ⟨rest, rfl, hnext⟩ := h.residual (.send hu hd (.done _))
    refine Or.inr ⟨rfl, rest, ?_, ?_, Or.inl ?_⟩
    · rw [bytesOf_cons, bytesOf_nil, List.append_nil, ByteQueue.pending_ofList, ← List.append_assoc,
        List.take_append_drop]
    · have hadvance : (u.advance hu).withoutTail = u.advance hu := withoutTail_of_empty htail
      exact hadvance.symm ▸ hnext
    · rw [List.length_take]
      omega

/-- A sending call sends all that is left, or a part of it. A call that sends nothing, into a buffer
in which nothing stands, goes back to the start. -/
theorem sendAfter_leads (hw : WellFormed s) (h : Leads s.withoutTail bytes t) (hcap : 0 < capacity)
    (start : Nat) : ∃ o u, s.sendAfter capacity start = (o, u) ∧
      (o.pending = false ∧ o.bytes = s.tail.pending ++ bytes ∧ u = t ∨
        o.pending = true ∧ ∃ rest, s.tail.pending ++ bytes = o.bytes ++ (u.tail.pending ++ rest) ∧
          Leads u.withoutTail rest t ∧
          (0 < start + o.bytes.length ∨ s.position ≠ 0 ∧ u.position = 0)) := by
  rcases s.sendAfter_cases capacity start with ⟨hlt, heq⟩ | ⟨-, es, u, o, v, hs, hstop, heq⟩
  · refine ⟨_, _, heq, Or.inr ⟨rfl, bytes, ?_, h, Or.inl ?_⟩⟩
    · rw [ByteQueue.pending_send, ← List.append_assoc, List.take_append_drop]
    · rw [List.length_take, ByteQueue.length_pending]
      omega
  refine ⟨_, _, heq, ?_⟩
  obtain ⟨rest, rfl, hrest⟩ := h.residual hs
  have hforcing : u.forcing = s.forcing := hs.forcing_eq
  rw [← hforcing] at hstop
  rcases hstop.leads hs.tail_eq hrest hcap with ⟨hp, hbytes, rfl⟩ | ⟨hp, rest', hsplit, hl, hprog⟩
  · exact Or.inl ⟨hp, by rw [hbytes, List.append_assoc], rfl⟩
  refine Or.inr ⟨hp, rest', ?_, hl, ?_⟩
  · rw [hsplit]
    simp only [List.append_assoc]
  rcases hprog with hsent | ⟨hend, hc, hzero⟩
  · left
    rw [List.length_append, List.length_append, ByteQueue.length_pending]
    omega
  · -- A pass from the start would have left no difference.
    right
    refine ⟨?_, hzero⟩
    intro hstart
    rw [hs.isClean hend hw.size_eq hstart rfl] at hc
    cases hc

/-! ### All calls -/

/-- What a screen sends before nothing is pending, and what it is then. -/
def Left (s : Screen) (bytes : List UInt8) (t : Screen) : Prop :=
  WellFormed s ∧ ∃ rest, bytes = s.tail.pending ++ rest ∧ Leads s.withoutTail rest t

theorem exists_left (hw : WellFormed s) : ∃ bytes t, Left s bytes t := by
  obtain ⟨rest, t, h⟩ := exists_leads (hw.setTail .empty) rfl
  exact ⟨_, t, hw, rest, rfl, h⟩

/-- A bound on the calls to come: each sends a byte or ends the pass. -/
def weight (s : Screen) (bytes : List UInt8) : Nat :=
  2 * bytes.length + if s.position = 0 then 0 else 1

theorem weight_lt {sent rest : List UInt8}
    (h : 0 < sent.length ∨ s.position ≠ 0 ∧ u.position = 0) :
    u.weight rest < s.weight (sent ++ rest) := by
  simp only [weight, List.length_append]
  rcases h with h | ⟨hs, hu⟩
  · split <;> split <;> omega
  · rw [if_neg hs, if_pos hu]
    omega

theorem flush_takes (h : Left s bytes t) (hcap : 0 < capacity) :
    Takes Left weight s bytes t (s.flush capacity) := by
  obtain ⟨hw, rest, rfl, hl⟩ := h
  obtain ⟨o, u, heq, hcases⟩ := sendAfter_leads hw hl hcap 0
  have hwu := hw.sendAfter capacity 0
  rw [heq] at hwu
  rw [flush, heq]
  refine hcases.imp_right ?_
  rintro ⟨hp, rest', hsplit, hl', hprog⟩
  refine ⟨hp, _, hsplit, ⟨hwu, rest', rfl, hl'⟩, ?_⟩
  rw [hsplit]
  rw [Nat.zero_add] at hprog
  exact weight_lt hprog

end Screen
end RemoteScreen
