import RemoteScreen.Proofs.Cell
import RemoteScreen.Proofs.Screen.Pass

/-! The two styles of a screen, of drawing and of blank cells, have no code point, whatever cells they
were made of. Painting and sending leave them alone, so only the calls that set a style matter. -/

namespace RemoteScreen
namespace Screen

variable {all : Bool} {capacity used : Nat} {s t u : Screen}

/-- Both styles of a screen are styles and nothing else. -/
structure Styled (s : Screen) : Prop where
  style : s.style.IsStyle
  defaultStyle : s.defaultStyle.IsStyle

theorem styled_of_create {width height : Nat} {style : Cell}
    (h : create width height style = .ok s) : Styled s := by
  obtain ⟨-, rfl⟩ := create_inv h
  exact ⟨Cell.isStyle_style style, Cell.isStyle_style style⟩

namespace Styled

/-! ### Actions -/

theorem paint (h : Styled s) (ps : List Placement) : Styled (s.paint ps) :=
  ⟨h.style, h.defaultStyle⟩

/-- Each way of drawing checks its place and then paints. -/
theorem checked (h : Styled s) {check : Except Fault Unit} {ps : List Placement}
    (hdraw : (check >>= fun _ => pure (s.paint ps)) = .ok t) : Styled t := by
  rw [eq_of_checked hdraw]
  exact h.paint ps

theorem line (h : Styled s) {x₀ y₀ x₁ y₁ cp : Nat} (hl : s.line x₀ y₀ x₁ y₁ cp = .ok t) :
    Styled t := by
  unfold Screen.line at hl
  cases hc : s.checkCell x₀ y₀ with
  | error _ => rw [hc] at hl; cases hl
  | ok _ =>
    rw [hc] at hl
    exact h.checked hl

theorem resize (h : Styled s) {width height : Nat} (hr : s.resize width height = .ok t) :
    Styled t := by
  unfold Screen.resize at hr
  split at hr
  · cases hr
    unfold reshape
    split
    · exact h
    · exact ⟨h.style, h.defaultStyle⟩
  · cases hr

theorem restore (h : Styled s) {snapshot : Snapshot} (hr : snapshot.restore s = .ok t) :
    Styled t := by
  unfold Snapshot.restore at hr
  cases hs : s.resize snapshot.width snapshot.height with
  | error _ => rw [hs] at hr; cases hr
  | ok u =>
    rw [hs] at hr
    exact (h.resize hs).checked hr

theorem perform (h : Styled s) {a : Action} (ha : s.perform a = .ok t) : Styled t := by
  cases a with
  | resize width height => exact h.resize ha
  | erase => cases ha; exact ⟨h.style, h.defaultStyle⟩
  | setStyle style => cases ha; exact ⟨Cell.isStyle_style style, h.defaultStyle⟩
  | resetStyle => cases ha; exact ⟨h.defaultStyle, h.defaultStyle⟩
  | setAttribute a on => cases ha; exact ⟨h.style.withAttribute a on, h.defaultStyle⟩
  | setForeground color => cases ha; exact ⟨h.style.withForeground color, h.defaultStyle⟩
  | setBackground color => cases ha; exact ⟨h.style.withBackground color, h.defaultStyle⟩
  | put x y cp => exact h.checked ha
  | write x y text => exact h.checked ha
  | writeBytes x y w h' bytes => exact h.checked ha
  | writeBlock x y w h' cps => exact h.checked ha
  | blit x y w h' cells => exact h.checked ha
  | fill x y w h' cp => exact h.checked ha
  | rect x y w h' cp => exact h.checked ha
  | line x₀ y₀ x₁ y₁ cp => exact h.line ha
  | restore snapshot => exact h.restore ha
  | repaintAlways on => cases ha; exact ⟨h.style, h.defaultStyle⟩
  | repaintOnce => cases ha; exact ⟨h.style, h.defaultStyle⟩
  | forgetPeer => cases ha; exact ⟨h.style, h.defaultStyle⟩

/-! ### Sending -/

theorem sends {es : List Emission} (h : Styled s) (hs : Sends all s es u) : Styled u := by
  obtain ⟨shown, peer, position, rfl, -, -⟩ := hs.frame
  exact ⟨h.style, h.defaultStyle⟩

theorem stop {o : Output} (h : Styled u) (hs : Stop all capacity used u o t) : Styled t := by
  cases hs <;> exact ⟨h.style, h.defaultStyle⟩

theorem sendAfter (h : Styled s) (capacity start : Nat) :
    Styled (s.sendAfter capacity start).2 := by
  rcases s.sendAfter_cases capacity start with ⟨-, heq⟩ | ⟨-, es, u, o, t, hs, hstop, heq⟩
  · rw [heq]
    exact ⟨h.style, h.defaultStyle⟩
  · rw [heq]
    have hwithout : Styled s.withoutTail := ⟨h.style, h.defaultStyle⟩
    exact (hwithout.sends hs).stop hstop

theorem call (h : Styled s) (c : Call) : Styled (s.call c).2 := by
  cases c with
  | perform a =>
    simp only [Screen.call]
    split
    next ha => exact h.perform ha
    next => exact h
  | flush capacity start =>
    simp only [Screen.call]
    split
    next o t ho =>
      obtain ⟨-, heq⟩ := flushAfter_eq_ok.mp ho
      have ht := h.sendAfter capacity start
      rwa [heq] at ht
    next => exact h
  | finishCell capacity => exact ⟨h.style, h.defaultStyle⟩

/-! ### Cells in the two styles -/

/-- What is drawn has the drawing style, and its code point as far as a cell holds it. -/
theorem ink (h : Styled s) (cp : Nat) :
    (s.ink cp).style = s.style ∧ (s.ink cp).codePoint = cp % 0x200000 :=
  ⟨(Cell.style_withCodePoint _ _).trans h.style, Cell.codePoint_withCodePoint _ _⟩

/-- Blank cells are spaces in the default style. -/
theorem blank (h : Styled s) : (blank s.defaultStyle).style = s.defaultStyle ∧
    (Screen.blank s.defaultStyle).codePoint = 0x20 :=
  ⟨(style_blank _).trans h.defaultStyle, codePoint_blank _⟩

end Styled

theorem reachable_styled (h : Reachable s) : Styled s := by
  induction h with
  | create h => exact styled_of_create h
  | call _ c ih => exact ih.call c

end Screen
end RemoteScreen
