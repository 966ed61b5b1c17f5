import RemoteScreen.Screen.Output

/-! Runs of anything that takes calls and answers with bytes: what a series of calls sends, what is
sent by flushing until nothing is pending, and that such flushing comes to an end. -/

namespace RemoteScreen

variable {σ κ : Type} {call : σ → κ → List UInt8 × σ}

/-- What some calls send one after another, and the state after them. -/
def runCalls (call : σ → κ → List UInt8 × σ) (s : σ) : List κ → List UInt8 × σ
  | [] => ([], s)
  | k :: ks => ((call s k).1 ++ (runCalls call (call s k).2 ks).1, (runCalls call (call s k).2 ks).2)

theorem runCalls_append (s : σ) (ks ls : List κ) :
    runCalls call s (ks ++ ls) =
      ((runCalls call s ks).1 ++ (runCalls call (runCalls call s ks).2 ls).1,
        (runCalls call (runCalls call s ks).2 ls).2) := by
  induction ks generalizing s with
  | nil => rfl
  | cons k ks ih => simp only [List.cons_append, runCalls, ih, List.append_assoc]

/-! ### Draining -/

open Screen (Output)

variable {flush : σ → Nat → Output × σ}

/-- Flushing into buffers of the given sizes until nothing is pending sends `bytes` and ends in a
state. -/
inductive Drains (flush : σ → Nat → Output × σ) : (Nat → Nat) → σ → List UInt8 → σ → Prop where
  | last {capacities : Nat → Nat} {s t : σ} {o : Output} (h : flush s (capacities 0) = (o, t))
      (hp : o.pending = false) : Drains flush capacities s o.bytes t
  | more {capacities : Nat → Nat} {s t u : σ} {o : Output} {bytes : List UInt8}
      (h : flush s (capacities 0) = (o, u)) (hp : o.pending = true)
      (hd : Drains flush (fun n => capacities (n + 1)) u bytes t) :
      Drains flush capacities s (o.bytes ++ bytes) t

/-- A flush with a given answer has taken its share of the bytes that were left: all of them and
leaves nothing pending, or a part and leaves the rest, which weighs less. -/
def Takes (left : σ → List UInt8 → σ → Prop) (weight : σ → List UInt8 → Nat) (s : σ)
    (bytes : List UInt8) (t : σ) (answer : Output × σ) : Prop :=
  answer.1.pending = false ∧ answer.1.bytes = bytes ∧ answer.2 = t ∨
  answer.1.pending = true ∧ ∃ rest, bytes = answer.1.bytes ++ rest ∧ left answer.2 rest t ∧
    weight answer.2 rest < weight s bytes

/-- If every flush takes its share, all flushes together send what is left, whatever the buffers. -/
theorem drains_of_takes {left : σ → List UInt8 → σ → Prop} {weight : σ → List UInt8 → Nat}
    (hflush : ∀ s bytes t n, left s bytes t → 0 < n → Takes left weight s bytes t (flush s n))
    {s t : σ} {bytes : List UInt8} (h : left s bytes t) {capacities : Nat → Nat}
    (hcap : ∀ n, 0 < capacities n) : Drains flush capacities s bytes t := by
  rcases hflush s bytes t _ h (hcap 0) with ⟨hp, rfl, rfl⟩ | ⟨hp, rest, rfl, hleft, hlt⟩
  · exact .last rfl hp
  · exact .more rfl hp (drains_of_takes hflush hleft fun n => hcap (n + 1))
termination_by weight s bytes

/-! ### Progress -/

/-- The state after `n` flushes into buffers of the given sizes. -/
def flushed (flush : σ → Nat → Output × σ) (capacities : Nat → Nat) (s : σ) : Nat → σ
  | 0 => s
  | n + 1 => (flush (flushed flush capacities s n) (capacities n)).2

/-- What the flush behind `n` others answers. -/
def answer (flush : σ → Nat → Output × σ) (capacities : Nat → Nat) (s : σ) (n : Nat) : Output :=
  (flush (flushed flush capacities s n) (capacities n)).1

theorem flushed_succ (flush : σ → Nat → Output × σ) (capacities : Nat → Nat) (s : σ) (n : Nat) :
    flushed flush capacities s (n + 1) =
      flushed flush (fun k => capacities (k + 1)) (flush s (capacities 0)).2 n := by
  induction n with
  | zero => rfl
  | succ n ih => rw [flushed, ih, flushed]

theorem answer_succ (flush : σ → Nat → Output × σ) (capacities : Nat → Nat) (s : σ) (n : Nat) :
    answer flush capacities s (n + 1) =
      answer flush (fun k => capacities (k + 1)) (flush s (capacities 0)).2 n := by
  rw [answer, flushed_succ, answer]

theorem Drains.exists_answer {capacities : Nat → Nat} {s t : σ} {bytes : List UInt8}
    (h : Drains flush capacities s bytes t) :
    ∃ n, (answer flush capacities s n).pending = false ∧
      ∀ k < n, (answer flush capacities s k).pending = true := by
  induction h with
  | last h hp =>
    refine ⟨0, ?_, fun k hk => absurd hk (Nat.not_lt_zero k)⟩
    rw [answer, flushed, h]
    exact hp
  | more h hp _ ih =>
    obtain ⟨n, hn, hbefore⟩ := ih
    refine ⟨n + 1, ?_, fun k hk => ?_⟩
    · rw [answer_succ, h]
      exact hn
    · cases k with
      | zero =>
        rw [answer, flushed, h]
        exact hp
      | succ k =>
        rw [answer_succ, h]
        exact hbefore k (Nat.lt_of_succ_lt_succ hk)

/-- Flushing into buffers of the given sizes comes to an end. `completes s n` says that a flush of
`s` into a buffer of size `n` completes a pass, `stale s n` that it does so with nothing to send. -/
structure Progresses (flush : σ → Nat → Output × σ) (completes stale : σ → Nat → Prop)
    (capacities : Nat → Nat) (s : σ) : Prop where
  /-- A first flush leaves nothing pending, and at most one before it completes a pass. -/
  drained : ∃ n, (answer flush capacities s n).pending = false ∧
    (∀ k < n, (answer flush capacities s k).pending = true) ∧
    ∀ j < n, ∀ k < n, completes (flushed flush capacities s j) (capacities j) →
      completes (flushed flush capacities s k) (capacities k) → j = k
  sends : ∀ n, (answer flush capacities s n).pending = true →
    (answer flush capacities s n).bytes ≠ [] ∨
      stale (flushed flush capacities s n) (capacities n) ∧
        (answer flush capacities s (n + 1)).bytes ≠ []

/-- What single flushes do for this, in good states. A fresh state is one whose pass leaves no
difference behind it. -/
structure Advances (flush : σ → Nat → Output × σ) (completes stale : σ → Nat → Prop)
    (good fresh : σ → Prop) : Prop where
  good_flush : ∀ s n, good s → good (flush s n).2
  drains : ∀ s (capacities : Nat → Nat), good s → (∀ n, 0 < capacities n) →
    ∃ bytes t, Drains flush capacities s bytes t
  fresh_of_completes : ∀ s n, completes s n → fresh (flush s n).2
  fresh_flush : ∀ s n, good s → fresh s → fresh (flush s n).2
  clean : ∀ s n, good s → fresh s → completes s n → (flush s n).1.pending = false
  sends : ∀ s n, good s → 0 < n → (flush s n).1.pending = true →
    (flush s n).1.bytes ≠ [] ∨ stale s n ∧ ∀ m, 0 < m → (flush (flush s n).2 m).1.bytes ≠ []

namespace Advances

variable {completes stale : σ → Nat → Prop} {good fresh : σ → Prop} {capacities : Nat → Nat} {s : σ}

theorem good_flushed (h : Advances flush completes stale good fresh) (hs : good s) (n : Nat) :
    good (flushed flush capacities s n) := by
  induction n with
  | zero => exact hs
  | succ n ih => exact h.good_flush _ _ ih

/-- Behind a flush that completes a pass, every state is fresh. -/
theorem fresh_flushed (h : Advances flush completes stale good fresh) (hs : good s) {j k : Nat}
    (hjk : j < k) (hj : completes (flushed flush capacities s j) (capacities j)) :
    fresh (flushed flush capacities s k) := by
  induction hjk with
  | refl => exact h.fresh_of_completes _ _ hj
  | step _ ih => exact h.fresh_flush _ _ (h.good_flushed hs _) ih

theorem progresses (h : Advances flush completes stale good fresh) (hs : good s)
    (hcap : ∀ n, 0 < capacities n) : Progresses flush completes stale capacities s := by
  obtain ⟨bytes, t, hdrains⟩ := h.drains s capacities hs hcap
  obtain ⟨n, hn, hbefore⟩ := hdrains.exists_answer
  -- Of two completed passes the later one would have left nothing pending.
  have hlater : ∀ j k, j < k → k < n → completes (flushed flush capacities s j) (capacities j) →
      ¬completes (flushed flush capacities s k) (capacities k) := by
    intro j k hjk hk hj hcomplete
    have hclean := h.clean _ _ (h.good_flushed hs k) (h.fresh_flushed hs hjk hj) hcomplete
    have hpending := hbefore k hk
    rw [answer, hclean] at hpending
    cases hpending
  refine ⟨⟨n, hn, hbefore, fun j hj k hk hcj hck => ?_⟩, fun k hk => ?_⟩
  · rcases Nat.lt_trichotomy j k with hlt | heq | hlt
    · exact absurd hck (hlater j k hlt hk hcj)
    · exact heq
    · exact absurd hcj (hlater k j hlt hj hck)
  · rcases h.sends _ _ (h.good_flushed hs k) (hcap k) hk with hsent | ⟨hstale, hnext⟩
    · exact Or.inl hsent
    · exact Or.inr ⟨hstale, hnext _ (hcap (k + 1))⟩

end Advances

end RemoteScreen
