import RemoteScreen.Proofs.Screen.Calls

/-! What an action does to a screen that does not refuse it (`Effect`). Drawing and the drawing style
touch what should show and the style; only a change of size touches more, and the rest is about how to
repaint. What actions keep is read off here, and not off the actions one by one. -/

namespace RemoteScreen
namespace Screen

variable {s t : Screen} {a : Action}

/-- Drawing, erasing and the drawing style. -/
def Action.Draws : Action → Prop
  | .resize _ _ | .restore _ | .repaintAlways _ | .repaintOnce | .forgetPeer => False
  | _ => True

instance (a : Action) : Decidable a.Draws :=
  match a with
  | .resize _ _ | .restore _ | .repaintAlways _ | .repaintOnce | .forgetPeer => .isFalse id
  | .erase | .setStyle _ | .resetStyle | .setAttribute _ _ | .setForeground _ | .setBackground _
  | .put _ _ _ | .write _ _ _ | .writeBytes _ _ _ _ _ | .writeBlock _ _ _ _ _ | .blit _ _ _ _ _
  | .fill _ _ _ _ _ | .rect _ _ _ _ _ | .line _ _ _ _ _ => .isTrue trivial

/-- The ready cells that an action is given. -/
def Action.cells : Action → List Cell
  | .blit _ _ _ _ cells => cells
  | .restore snapshot => snapshot.cells
  | _ => []

/-- What an action makes of a screen that does not refuse it. -/
inductive Effect (s : Screen) : Action → Screen → Prop where
  /-- A new cell is one that the action is given, or a code point in the drawing style. -/
  | draw {a : Action} {target : Array Cell} {style : Cell} (ha : a.Draws)
      (hsize : target.size = s.target.size)
      (hcells : ∀ c ∈ target, c ∈ s.target ∨ c ∈ a.cells ∨ ∃ cp, c = s.ink cp) :
      Effect s a { s with target, style }
  | resize {width height : Nat} : Effect s (.resize width height) (s.reshape width height)
  | restore {snapshot : Snapshot} {target : Array Cell}
      (hsize : target.size = (s.reshape snapshot.width snapshot.height).target.size)
      (hcells : ∀ c ∈ target, c ∈ (s.reshape snapshot.width snapshot.height).target ∨
        c ∈ snapshot.cells) :
      Effect s (.restore snapshot) { s.reshape snapshot.width snapshot.height with target }
  | repaintAlways (on : Bool) : Effect s (.repaintAlways on) (s.setRepaintAlways on)
  | repaintOnce : Effect s .repaintOnce s.requestRepaint
  | forgetPeer : Effect s .forgetPeer s.forgetPeer

/-! ### Painting -/

theorem mem_target_paint {ps : List Placement} {c : Cell} (hc : c ∈ (s.paint ps).target) :
    c ∈ s.target ∨ ∃ p ∈ ps, p.2 = c := by
  induction ps generalizing s with
  | nil => exact Or.inl hc
  | cons p ps ih =>
    rw [← List.singleton_append, paint_append] at hc
    rcases ih hc with hold | ⟨q, hq, rfl⟩
    · rcases Array.mem_or_eq_of_mem_setIfInBounds hold with hold | rfl
      · exact Or.inl hold
      · exact Or.inr ⟨p, List.mem_cons_self, rfl⟩
    · exact Or.inr ⟨q, List.mem_cons_of_mem _ hq, rfl⟩

theorem mem_placeBlock {x y w h : Nat} {cells : List Cell} {c : Cell}
    (hc : c ∈ (s.placeBlock x y w h cells).target) : c ∈ s.target ∨ c ∈ cells := by
  rcases mem_target_paint hc with hold | ⟨p, hp, rfl⟩
  · exact Or.inl hold
  · obtain ⟨i, hi, rfl⟩ := List.mem_mapIdx.mp hp
    exact Or.inr (List.mem_of_mem_take (List.getElem_mem hi))

/-- Each way of drawing checks its place and then paints. -/
theorem effect_of_checked {check : Except Fault Unit} {ps : List Placement} (ha : a.Draws)
    (h : (check >>= fun _ => pure (s.paint ps)) = .ok t)
    (hps : ∀ p ∈ ps, p.2 ∈ a.cells ∨ ∃ cp, p.2 = s.ink cp) : Effect s a t := by
  obtain rfl := eq_of_checked h
  refine .draw ha (size_target_paint s ps) fun c hc => ?_
  rcases mem_target_paint hc with hold | ⟨p, hp, rfl⟩
  · exact Or.inl hold
  · exact Or.inr (hps p hp)

theorem effect_of_placeBlock {check : Except Fault Unit} {x y w h : Nat} {cells : List Cell}
    (ha : a.Draws) (hb : (check >>= fun _ => pure (s.placeBlock x y w h cells)) = .ok t)
    (hcells : ∀ c ∈ cells, c ∈ a.cells ∨ ∃ cp, c = s.ink cp) : Effect s a t := by
  refine effect_of_checked ha hb fun p hp => ?_
  obtain ⟨i, hi, rfl⟩ := List.mem_mapIdx.mp hp
  exact hcells _ (List.mem_of_mem_take (List.getElem_mem hi))

theorem mem_map_ink {cps : List Nat} {c : Cell} (hc : c ∈ cps.map s.ink) : ∃ cp, c = s.ink cp := by
  obtain ⟨cp, -, rfl⟩ := List.mem_map.mp hc
  exact ⟨cp, rfl⟩

/-! ### Actions -/

theorem eq_reshape_of_resize {width height : Nat} (h : s.resize width height = .ok t) :
    t = s.reshape width height := by
  unfold resize at h
  split at h
  · cases h
    rfl
  · cases h

theorem effect_of_restore {snapshot : Snapshot} (h : snapshot.restore s = .ok t) :
    Effect s (.restore snapshot) t := by
  unfold Snapshot.restore at h
  cases hs : s.resize snapshot.width snapshot.height with
  | error _ => rw [hs] at h; cases h
  | ok u =>
    rw [hs] at h
    obtain rfl := eq_reshape_of_resize hs
    obtain rfl := eq_of_checked h
    exact .restore (size_target_paint _ _) fun c hc => mem_placeBlock hc

theorem effect_of_perform (h : s.perform a = .ok t) : Effect s a t := by
  cases a with
  | resize width height =>
    obtain rfl := eq_reshape_of_resize h
    exact .resize
  | erase =>
    cases h
    refine .draw trivial Array.size_replicate fun c hc => ?_
    exact Or.inr (Or.inr ⟨0x20, (Array.mem_replicate.mp hc).2⟩)
  | put x y cp =>
    refine effect_of_checked trivial h fun p hp => ?_
    rw [List.mem_singleton.mp hp]
    exact Or.inr ⟨cp, rfl⟩
  | write x y text => exact effect_of_placeBlock trivial h fun c hc => Or.inr (mem_map_ink hc)
  | writeBytes x y w h' bytes =>
    exact effect_of_placeBlock trivial h fun c hc => Or.inr (mem_map_ink hc)
  | writeBlock x y w h' cps =>
    exact effect_of_placeBlock trivial h fun c hc => Or.inr (mem_map_ink hc)
  | blit x y w h' cells => exact effect_of_placeBlock trivial h fun c hc => Or.inl hc
  | fill x y w h' cp =>
    refine effect_of_placeBlock trivial h fun c hc => ?_
    exact Or.inr ⟨cp, List.eq_of_mem_replicate hc⟩
  | rect x y w h' cp =>
    refine effect_of_checked trivial h fun p hp => ?_
    obtain ⟨i, -, rfl⟩ := List.mem_map.mp hp
    exact Or.inr ⟨cp, rfl⟩
  | line x₀ y₀ x₁ y₁ cp =>
    change s.line x₀ y₀ x₁ y₁ cp = .ok t at h
    unfold line at h
    cases hc : s.checkCell x₀ y₀ with
    | error _ => rw [hc] at h; cases h
    | ok _ =>
      rw [hc] at h
      refine effect_of_checked trivial h fun p hp => ?_
      obtain ⟨q, -, rfl⟩ := List.mem_map.mp hp
      exact Or.inr ⟨cp, rfl⟩
  | restore snapshot => exact effect_of_restore h
  | repaintAlways on => cases h; exact .repaintAlways on
  | repaintOnce => cases h; exact .repaintOnce
  | forgetPeer => cases h; exact .forgetPeer
  | setStyle _ | resetStyle | setAttribute _ _ | setForeground _ | setBackground _ =>
    cases h
    exact .draw trivial rfl fun c hc => Or.inl hc

end Screen
end RemoteScreen
