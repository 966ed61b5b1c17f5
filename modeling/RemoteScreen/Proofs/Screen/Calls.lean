import Mathlib.Logic.Relation
import RemoteScreen.Proofs.Runs
import RemoteScreen.Screen.Action

/-! The calls that a screen takes and the states that they lead to. An action sends nothing and is
made of four elementary edits; a refused action changes nothing. -/

namespace RemoteScreen
namespace Screen
open Relation (ReflTransGen)

variable {s t u : Screen}

/-! ### Actions -/

/-- The elementary changes of a screen that send nothing. -/
inductive Edit (s : Screen) : Screen → Prop where
  /-- What should show, in the same places, the drawing style and whether to repaint always. -/
  | draw {target : Array Cell} {style : Cell} {always : Bool} (h : target.size = s.target.size) :
      Edit s { s with target, style, repaintAlways := always }
  | reshape (width height : Nat) (h : Addressable width height) : Edit s (s.reshape width height)
  | requestRepaint : Edit s s.requestRepaint
  | forgetPeer : Edit s s.forgetPeer

theorem eq_of_checked {check : Except Fault Unit} (h : (check >>= fun _ => pure t) = .ok u) :
    u = t := by
  cases check with
  | error _ => cases h
  | ok _ => cases h; rfl

theorem reshape_same (s : Screen) : s.reshape s.width s.height = s :=
  if_pos ⟨rfl, rfl⟩

theorem size_reshape (s : Screen) (width height : Nat) :
    (s.reshape width height).width = width ∧ (s.reshape width height).height = height := by
  unfold reshape
  split
  next heq => exact heq
  next => exact ⟨rfl, rfl⟩

theorem Edit.paint (s : Screen) (ps : List Placement) : Edit s (s.paint ps) :=
  .draw (size_target_paint s ps)

theorem edit_of_blit {x y w h : Nat} {cells : List Cell} (hb : s.blit x y w h cells = .ok t) :
    Edit s t := by
  rw [eq_of_checked hb]
  exact .paint s _

theorem edit_of_writeBlock {x y w h : Nat} {cps : List Nat} (hw : s.writeBlock x y w h cps = .ok t) :
    Edit s t := by
  rw [eq_of_checked hw]
  exact .paint s _

theorem edit_of_line {x₀ y₀ x₁ y₁ cp : Nat} (hl : s.line x₀ y₀ x₁ y₁ cp = .ok t) : Edit s t := by
  unfold line at hl
  cases hc : s.checkCell x₀ y₀ with
  | error _ => rw [hc] at hl; cases hl
  | ok _ =>
    rw [hc] at hl
    rw [eq_of_checked hl]
    exact .paint s _

/-- An edit does the same to a screen that has forgotten its peer. -/
theorem Edit.forgotten (he : Edit s t) : Edit s.forgetPeer t.forgetPeer := by
  cases he with
  | draw h => exact .draw h
  | reshape width height h =>
    have heq : s.forgetPeer.reshape width height = (s.reshape width height).forgetPeer := by
      by_cases hsize : s.width = width ∧ s.height = height
      · exact (if_pos hsize).trans (congrArg Screen.forgetPeer (if_pos hsize).symm)
      · have hforgot : ¬(s.forgetPeer.width = width ∧ s.forgetPeer.height = height) := hsize
        rw [Screen.reshape, Screen.reshape, if_neg hforgot, if_neg hsize]
        rfl
    exact heq ▸ .reshape width height h
  | requestRepaint => exact .requestRepaint
  | forgetPeer => exact .forgetPeer

theorem edits_forgotten (he : ReflTransGen Edit s t) :
    ReflTransGen Edit s.forgetPeer t.forgetPeer := by
  induction he with
  | refl => exact .refl
  | tail _ he ih => exact ih.tail he.forgotten

theorem Edit.tail_eq (he : Edit s t) : t.tail = s.tail := by
  cases he with
  | reshape width height =>
    unfold Screen.reshape
    split <;> rfl
  | _ => rfl

theorem edits_tail_eq (he : ReflTransGen Edit s t) : t.tail = s.tail := by
  induction he with
  | refl => rfl
  | tail _ he ih => exact he.tail_eq.trans ih

theorem edits_of_resize {width height : Nat} (hr : s.resize width height = .ok t) :
    ReflTransGen Edit s t := by
  unfold resize at hr
  split at hr
  next h =>
    cases hr
    rcases h with h | h
    · rw [reshape, if_pos h]
    · exact .single (.reshape width height h)
  next => cases hr

theorem edits_of_restore {snapshot : Snapshot} (hr : snapshot.restore s = .ok t) :
    ReflTransGen Edit s t := by
  unfold Snapshot.restore at hr
  cases hs : s.resize snapshot.width snapshot.height with
  | error _ => rw [hs] at hr; cases hr
  | ok u =>
    rw [hs] at hr
    exact (edits_of_resize hs).tail (edit_of_blit hr)

theorem edits_of_perform {a : Action} (h : s.perform a = .ok t) : ReflTransGen Edit s t := by
  cases a with
  | resize width height => exact edits_of_resize h
  | erase => cases h; exact .single (.draw Array.size_replicate)
  | setStyle style => cases h; exact .single (.draw rfl)
  | resetStyle => cases h; exact .single (.draw rfl)
  | setAttribute a on => cases h; exact .single (.draw rfl)
  | setForeground color => cases h; exact .single (.draw rfl)
  | setBackground color => cases h; exact .single (.draw rfl)
  | put x y cp => rw [eq_of_checked h]; exact .single (.paint s _)
  | write x y text => exact .single (edit_of_writeBlock h)
  | writeBytes x y w h' bytes => exact .single (edit_of_writeBlock h)
  | writeBlock x y w h' cps => exact .single (edit_of_writeBlock h)
  | blit x y w h' cells => exact .single (edit_of_blit h)
  | fill x y w h' cp => rw [eq_of_checked h]; exact .single (.paint s _)
  | rect x y w h' cp => rw [eq_of_checked h]; exact .single (.paint s _)
  | line x₀ y₀ x₁ y₁ cp => exact .single (edit_of_line h)
  | restore snapshot => exact edits_of_restore h
  | repaintAlways on => cases h; exact .single (.draw rfl)
  | repaintOnce => cases h; exact .single .requestRepaint
  | forgetPeer => cases h; exact .single .forgetPeer

/-! ### Calls -/

/-- What can be done with a screen. -/
inductive Call where
  | perform (a : Action)
  /-- Sends into a buffer whose first `start` bytes are taken by others. -/
  | flush (capacity start : Nat)
  | finishCell (capacity : Nat)
  deriving DecidableEq, Inhabited

/-- What a call sends, and the screen after it. -/
def call (s : Screen) : Call → List UInt8 × Screen
  | .perform a =>
    match s.perform a with
    | .ok t => ([], t)
    | .error _ => ([], s)
  | .flush capacity start =>
    match s.flushAfter capacity start with
    | .ok (o, t) => (o.bytes, t)
    | .error _ => ([], s)
  | .finishCell capacity => ((s.finishCell capacity).1.bytes, (s.finishCell capacity).2)

/-- What some calls send one after another, and the screen after them. -/
def run (s : Screen) (calls : List Call) : List UInt8 × Screen :=
  runCalls call s calls

theorem run_nil (s : Screen) : s.run [] = ([], s) := rfl

theorem run_cons (s : Screen) (c : Call) (cs : List Call) :
    s.run (c :: cs) = ((s.call c).1 ++ ((s.call c).2.run cs).1, ((s.call c).2.run cs).2) := rfl

theorem run_append (s : Screen) (cs ds : List Call) :
    s.run (cs ++ ds) = ((s.run cs).1 ++ ((s.run cs).2.run ds).1, ((s.run cs).2.run ds).2) :=
  runCalls_append s cs ds

theorem call_of_error {a : Action} {f : Fault} (h : s.perform a = .error f) :
    s.call (.perform a) = ([], s) := by
  rw [call, h]

theorem call_perform (s : Screen) (a : Action) :
    ∃ t, s.call (.perform a) = ([], t) ∧ ReflTransGen Edit s t := by
  simp only [call]
  split
  next t h => exact ⟨t, rfl, edits_of_perform h⟩
  next => exact ⟨s, rfl, .refl⟩

/-- Actions one after another send nothing and edit the screen. -/
theorem run_perform (s : Screen) (as : List Action) :
    ∃ t, s.run (as.map .perform) = ([], t) ∧ ReflTransGen Edit s t := by
  induction as generalizing s with
  | nil => exact ⟨s, rfl, .refl⟩
  | cons a as ih =>
    obtain ⟨t, ht, hst⟩ := call_perform s a
    obtain ⟨u, hu, htu⟩ := ih t
    refine ⟨u, ?_, hst.trans htu⟩
    rw [List.map_cons, run_cons, ht, hu]
    rfl

theorem flushAfter_eq_ok {capacity start : Nat} {r : Output × Screen} :
    s.flushAfter capacity start = .ok r ↔ start ≤ capacity ∧ s.sendAfter capacity start = r := by
  unfold flushAfter
  split
  next h => simp [h]
  next h => simp [h]

/-- A call edits the screen and sends nothing, or it is one of the two ways of sending. -/
theorem call_cases (s : Screen) (c : Call) :
    (∃ t, s.call c = ([], t) ∧ ReflTransGen Edit s t) ∨
    (∃ capacity start, start ≤ capacity ∧
      s.call c = ((s.sendAfter capacity start).1.bytes, (s.sendAfter capacity start).2)) ∨
    (∃ capacity, s.call c = ((s.finishCell capacity).1.bytes, (s.finishCell capacity).2)) := by
  cases c with
  | perform a => exact Or.inl (call_perform s a)
  | flush capacity start =>
    simp only [call]
    split
    next o t h =>
      obtain ⟨hle, ho⟩ := flushAfter_eq_ok.mp h
      exact Or.inr (Or.inl ⟨capacity, start, hle, by rw [ho]⟩)
    next => exact Or.inl ⟨s, rfl, .refl⟩
  | finishCell capacity => exact Or.inr (Or.inr ⟨capacity, rfl⟩)

/-- The screens that calls lead to. -/
inductive Reachable : Screen → Prop where
  | create {s : Screen} {width height : Nat} {style : Cell} (h : create width height style = .ok s) :
      Reachable s
  | call {s : Screen} (h : Reachable s) (c : Call) : Reachable (s.call c).2

theorem create_inv {width height : Nat} {style : Cell} (h : create width height style = .ok s) :
    Addressable width height ∧ s = {
      width, height
      shown := Array.replicate (width * height) (blank style.style)
      target := Array.replicate (width * height) (blank style.style)
      style := style.style
      defaultStyle := style.style
      position := 0
      peer := .unknown
      repaintAlways := false
      repaintOnce := true
      tail := .empty } := by
  unfold create at h
  split at h
  next ha =>
    cases h
    exact ⟨ha, rfl⟩
  next => cases h

theorem tail_of_create {width height : Nat} {style : Cell} (h : create width height style = .ok s) :
    s.tail = .empty := by
  obtain ⟨-, rfl⟩ := create_inv h
  rfl

theorem Reachable.run (h : Reachable s) (cs : List Call) : Reachable (s.run cs).2 := by
  induction cs generalizing s with
  | nil => exact h
  | cons c cs ih => exact ih (h.call c)

end Screen
end RemoteScreen
