import RemoteScreen.Proofs.Screen.Clean
import RemoteScreen.Proofs.Screen.Drain

/-! Sending comes to an end. A pass that begins at the first cell leaves no difference, so of the
passes that some flushes complete only the first one can leave any (`Swept`); and a call that sends
nothing, with something pending, has completed a pass behind whose start a cell differs. -/

namespace RemoteScreen
namespace Screen

variable {all : Bool} {capacity start used : Nat} {s t u v : Screen} {es rest : List Emission}
  {o : Output}

/-! ### Calls that complete a pass -/

/-- A sending call completes the pass of `s`, and the pass leads to `u`: the tail and the cells `es`
that are left to send fit the buffer. -/
structure Completes (s : Screen) (capacity start : Nat) (es : List Emission) (u : Screen) : Prop where
  sends : Sends s.forcing s.withoutTail es u
  ends : u.target.size ≤ u.position
  fits : start + s.tail.size + (bytesOf es).length ≤ capacity

theorem Stop.of_fits (hstop : Stop all capacity used v o t) (hs : Sends all v rest u)
    (hu : u.target.size ≤ u.position) (hfits : used + (bytesOf rest).length ≤ capacity) :
    rest = [] ∧ v = u ∧ o = ⟨[], !u.isClean⟩ ∧ t = u.endPass := by
  cases hs with
  | done =>
    cases hstop with
    | complete => exact ⟨rfl, rfl, rfl, rfl⟩
    | full hp => exact absurd hp (Nat.not_lt_of_le hu)
    | split hp => exact absurd hp (Nat.not_lt_of_le hu)
  | skip hp hd =>
    cases hstop with
    | complete hend => exact absurd hp (Nat.not_lt_of_le hend)
    | full _ hdue => exact absurd hdue hd
    | split _ hdue => exact absurd hdue hd
  | send hp hd =>
    rw [bytesOf_cons, List.length_append] at hfits
    cases hstop with
    | complete hend => exact absurd hp (Nat.not_lt_of_le hend)
    | full _ _ hfull => omega
    | split _ _ _ _ hfull => omega

theorem Completes.sendAfter (h : s.Completes capacity start es u) :
    s.sendAfter capacity start = (⟨s.tail.pending ++ bytesOf es, !u.isClean⟩, u.endPass) := by
  have hfits := h.fits
  rcases s.sendAfter_cases capacity start with ⟨hlt, -⟩ | ⟨-, fs, v, o, t, hs, hstop, heq⟩
  · omega
  obtain ⟨rest, rfl, hrest⟩ := h.sends.residual h.ends hs
  have hlength : (bytesOf (fs ++ rest)).length = (bytesOf fs).length + (bytesOf rest).length := by
    rw [bytesOf_append, List.length_append]
  obtain ⟨rfl, rfl, rfl, rfl⟩ := hstop.of_fits hrest h.ends (by omega)
  rw [heq, List.append_nil, List.append_nil]

/-! ### Fresh passes -/

theorem Stop.swept (hstop : Stop all capacity used u o t) (hsize : u.shown.size = u.target.size)
    (hs : u.Swept) : t.Swept := by
  cases hstop with
  | complete => exact swept_of_start rfl
  | full => exact hs
  | split hp hd =>
    have hnext : Sends all u [u.emission hp] (u.advance hp) := .send hp hd (.done _)
    exact hnext.swept hsize hs

theorem Swept.sendAfter (hs : s.Swept) (hw : WellFormed s) (capacity start : Nat) :
    (s.sendAfter capacity start).2.Swept := by
  rcases s.sendAfter_cases capacity start with ⟨-, heq⟩ | ⟨-, es, u, o, t, hsends, hstop, heq⟩
  · rw [heq]
    exact hs
  · have hsize : s.shown.size = s.target.size := hw.size_eq
    have hwu := (hw.setTail .empty).sends hsends
    rw [heq]
    exact hstop.swept hwu.size_eq (hsends.swept hsize hs)

theorem Completes.isClean (h : s.Completes capacity start es u) (hw : WellFormed s) (hs : s.Swept) :
    u.isClean = true :=
  (h.sends.isClean_iff h.ends hw.size_eq rfl).mpr hs

/-! ### Calls that send nothing -/

/-- A cell behind the pass differs from what should show. -/
def Stale (s : Screen) : Prop :=
  ∃ i < s.position, s.shown[i]? ≠ s.target[i]?

instance (s : Screen) : Decidable s.Stale :=
  decidable_of_iff (∃ i : Fin s.position, s.shown[i.val]? ≠ s.target[i.val]?)
    ⟨fun ⟨i, hi⟩ => ⟨i, i.isLt, hi⟩, fun ⟨i, hlt, hi⟩ => ⟨⟨i, hlt⟩, hi⟩⟩

theorem stale_iff : s.Stale ↔ ¬s.Swept := by
  constructor
  · rintro ⟨i, hi, hne⟩ hs
    exact hne (hs i hi)
  · intro h
    refine Decidable.byContradiction fun hno => h fun i hi => ?_
    exact Decidable.not_not.mp fun hne => hno ⟨i, hi, hne⟩

/-- A call that leaves its buffer empty, with something pending, has completed a pass with nothing to
send, and a cell behind the start of the pass differs. -/
theorem completes_of_silent (hw : WellFormed s) (hcap : 0 < capacity)
    (h : s.sendAfter capacity start = (o, t)) (hpend : o.pending = true)
    (hbytes : start + o.bytes.length = 0) :
    ∃ u, s.Completes capacity start [] u ∧ s.Stale := by
  rcases s.sendAfter_cases capacity start with ⟨hlt, heq⟩ | ⟨-, es, u, o', t', hs, hstop, heq⟩
  · cases heq.symm.trans h
    rw [List.length_take, ByteQueue.length_pending] at hbytes
    omega
  cases heq.symm.trans h
  rw [List.length_append, List.length_append, ByteQueue.length_pending] at hbytes
  have hnil : bytesOf es = [] := List.length_eq_zero_iff.mp (by omega)
  obtain ⟨rfl, -⟩ := hs.eq_of_bytesOf_nil hnil
  cases hstop with
  | complete hend =>
    have hcompletes : s.Completes capacity start [] u := by
      refine ⟨hs, hend, ?_⟩
      rw [hnil, List.length_nil]
      omega
    refine ⟨u, hcompletes, stale_iff.mpr fun hswept => ?_⟩
    rw [hcompletes.isClean hw hswept] at hpend
    cases hpend
  | full hp hd hfull hused =>
    have hzero := hused (by omega)
    omega
  | split hp hd hused hcap' hfull =>
    rw [List.length_take] at hbytes
    omega

theorem flush_ne_nil (hw : WellFormed s) (hstart : s.position = 0) (hclean : s.isClean = false)
    (hcap : 0 < capacity) : (s.flush capacity).1.bytes ≠ [] := by
  intro hnil
  cases hpend : (s.flush capacity).1.pending with
  | false =>
    have hidle : (s.sendAfter capacity 0).1 = ⟨[], false⟩ := by
      rw [← hnil, ← hpend]
      rfl
    rw [((sendAfter_idle_iff s capacity 0).mp hidle).1] at hclean
    cases hclean
  | true =>
    have hlength : 0 + (s.flush capacity).1.bytes.length = 0 := by rw [hnil]; rfl
    obtain ⟨-, -, i, hi, -⟩ := completes_of_silent hw hcap rfl hpend hlength
    rw [hstart] at hi
    cases hi

theorem Completes.flush_ne_nil (h : s.Completes capacity start es u) (hw : WellFormed s)
    (hclean : u.isClean = false) {n : Nat} (hn : 0 < n) : (u.endPass.flush n).1.bytes ≠ [] := by
  have hwu : u.WellFormed := (hw.setTail .empty).sends h.sends
  exact Screen.flush_ne_nil hwu.endPass rfl hclean hn

/-! ### All calls -/

/-- A flush into a buffer of size `n` completes a pass. -/
def CompletesPass (s : Screen) (n : Nat) : Prop :=
  ∃ es u, s.Completes n 0 es u

/-- A flush into a buffer of size `n` completes a pass with nothing to send, although a cell behind
the start of the pass differs. -/
def PassesOver (s : Screen) (n : Nat) : Prop :=
  (∃ u, s.Completes n 0 [] u) ∧ s.Stale

theorem advances : Advances flush CompletesPass PassesOver WellFormed Swept where
  good_flush s n hw := hw.sendAfter n 0
  drains s capacities hw hcap := by
    obtain ⟨bytes, t, hleft⟩ := exists_left hw
    exact ⟨bytes, t, drains_of_takes (fun _ _ _ _ => flush_takes) hleft hcap⟩
  fresh_of_completes s n h := by
    obtain ⟨es, u, h⟩ := h
    rw [flush, h.sendAfter]
    exact swept_of_start rfl
  fresh_flush s n hw hs := hs.sendAfter hw n 0
  clean s n hw hs h := by
    obtain ⟨es, u, h⟩ := h
    rw [flush, h.sendAfter, h.isClean hw hs]
    rfl
  sends s n hw hn hpend := by
    by_cases hnil : (s.flush n).1.bytes = []
    · have hlength : 0 + (s.flush n).1.bytes.length = 0 := by rw [hnil]; rfl
      obtain ⟨u, h, hstale⟩ := completes_of_silent hw hn rfl hpend hlength
      have hflush : s.flush n = (⟨s.tail.pending ++ bytesOf [], !u.isClean⟩, u.endPass) := h.sendAfter
      rw [hflush] at hpend ⊢
      have hclean : u.isClean = false := by simpa using hpend
      exact Or.inr ⟨⟨⟨u, h⟩, hstale⟩, fun m hm => h.flush_ne_nil hw hclean hm⟩
    · exact Or.inl hnil

end Screen
end RemoteScreen
