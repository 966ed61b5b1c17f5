import Mathlib.Data.List.Induction
import RemoteScreen.Keyboard

/-! The keyboard is the set of the keys that have been pressed since it was last cleared. A key has a
place, which is a bit of one of the three bit sets, and a letter has the same place in either case. A
press sets the bit of its place and no other (`testBit_press`), and only clearing takes bits away, so
after any calls a bit is set exactly if a key of its place is held (`testBit_run`). All queries are
answered from this. In machine words, with masks for the bits, it comes to the same. -/

namespace RemoteScreen

open Telnet (Key NamedKey)

namespace Keyboard

/-- What is done with a keyboard. -/
inductive Call where
  | press (key : Key)
  | clear
  deriving DecidableEq

/-- The keyboard after a call. -/
def call (k : Keyboard) : Call → Keyboard
  | .press key => k.press key
  | .clear => k.clear

/-- A new keyboard after calls. -/
def run (calls : List Call) : Keyboard :=
  calls.foldl call {}

theorem run_concat (calls : List Call) (c : Call) : run (calls ++ [c]) = (run calls).call c := by
  rw [run, List.foldl_append, List.foldl_cons, List.foldl_nil, run]

/-! ### Held keys -/

/-- The key has been pressed, and the keyboard has not been cleared since. -/
def Held (calls : List Call) (key : Key) : Prop :=
  ∃ before after, calls = before ++ .press key :: after ∧ .clear ∉ after

variable {calls : List Call} {key pressed : Key} {i n : Nat}

theorem not_held_nil : ¬Held [] key := by
  rintro ⟨before, after, h, -⟩
  exact List.append_ne_nil_of_right_ne_nil before (List.cons_ne_nil _ _) h.symm

/-- A key that is held was pressed last, or it was held before and has not been cleared. -/
theorem held_concat_iff {c : Call} :
    Held (calls ++ [c]) key ↔ c = .press key ∨ Held calls key ∧ c ≠ .clear := by
  constructor
  · rintro ⟨before, after, h, hclear⟩
    rcases List.eq_nil_or_concat after with rfl | ⟨after, last, rfl⟩
    · obtain ⟨-, hlast⟩ := List.append_inj' h rfl
      cases hlast
      exact .inl rfl
    · rw [List.concat_eq_append] at h hclear
      rw [← List.cons_append, ← List.append_assoc] at h
      obtain ⟨rfl, hlast⟩ := List.append_inj' h rfl
      cases hlast
      refine .inr ⟨⟨before, after, rfl, fun h => hclear (List.mem_append_left _ h)⟩, ?_⟩
      rintro rfl
      exact hclear (List.mem_append_right _ (List.mem_singleton.mpr rfl))
  · rintro (rfl | ⟨⟨before, after, rfl, hclear⟩, hc⟩)
    · exact ⟨calls, [], rfl, List.not_mem_nil⟩
    · refine ⟨before, after ++ [c], by rw [List.append_assoc, List.cons_append], fun h => ?_⟩
      rcases List.mem_append.mp h with h | h
      · exact hclear h
      · exact hc (List.mem_singleton.mp h).symm

/-! ### Places -/

/-- The bit sets of a keyboard. -/
inductive Part where
  | letters | digits | named
  deriving DecidableEq

/-- The bits of one of the sets. -/
def part (k : Keyboard) : Part → Nat
  | .letters => k.letters
  | .digits => k.digits
  | .named => k.named

/-- The bit that a key sets. -/
def place? : Key → Option (Part × Nat)
  | .named key => some (.named, key.index)
  | .letter b => (letterIndex? b.toNat).map (Part.letters, ·)
  | .digit d => if d < 10 then some (.digits, d.toNat) else none

/-- The key sets bit `i` of this set. -/
inductive Sets : Key → Part → Nat → Prop where
  | letter {b : UInt8} {i : Nat} (hi : letterIndex? b.toNat = some i) : Sets (.letter b) .letters i
  | digit {d : UInt8} {i : Nat} (hd : d < 10) (hi : d.toNat = i) : Sets (.digit d) .digits i
  | named {name : NamedKey} {i : Nat} (hi : name.index = i) : Sets (.named name) .named i

theorem sets_iff {p : Part} : Sets key p i ↔ place? key = some (p, i) := by
  constructor
  · rintro (hi | ⟨hd, rfl⟩ | rfl)
    · rw [place?, hi, Option.map_some]
    · rw [place?, if_pos hd]
    · rfl
  · intro h
    cases key with
    | named name =>
      cases h
      exact .named rfl
    | letter b =>
      obtain ⟨j, hj, hplace⟩ := Option.map_eq_some_iff.mp h
      cases hplace
      exact .letter hj
    | digit d =>
      by_cases hd : d < 10
      · rw [place?, if_pos hd] at h
        cases h
        exact .digit hd rfl
      · rw [place?, if_neg hd] at h
        cases h

theorem press_of_no_place {k : Keyboard} (h : place? key = none) : k.press key = k := by
  cases key with
  | named => cases h
  | letter b => rw [press, Option.map_eq_none_iff.mp h]
  | digit d =>
    by_cases hd : d < 10
    · rw [place?, if_pos hd] at h
      cases h
    · rw [press, if_neg hd]

theorem Sets.part_press {k : Keyboard} {p : Part} (h : Sets key p i) (q : Part) :
    (k.press key).part q = if p = q then insert (k.part q) i else k.part q := by
  cases h with
  | letter hi =>
    rw [press, hi]
    cases q <;> rfl
  | digit hd hi =>
    rw [press, if_pos hd, hi]
    cases q <;> rfl
  | named hi =>
    rw [press, hi]
    cases q <;> rfl

theorem testBit_press {k : Keyboard} {p : Part} : ((k.press key).part p).testBit i = true ↔
    Sets key p i ∨ (k.part p).testBit i = true := by
  cases hplace : place? key with
  | none => simp only [press_of_no_place hplace, sets_iff, hplace, reduceCtorEq, false_or]
  | some place =>
    obtain ⟨q, j⟩ := place
    rw [(sets_iff.mpr hplace).part_press, sets_iff, hplace, Option.some.injEq, Prod.mk.injEq]
    by_cases hq : q = p
    · rw [if_pos hq, testBit_insert, Bool.or_eq_true, decide_eq_true_eq, or_comm]
      simp only [hq, true_and]
    · rw [if_neg hq]
      simp only [hq, false_and, false_or]

/-- A bit is set exactly if a key that sets it is held. -/
theorem testBit_run {p : Part} :
    ((run calls).part p).testBit i = true ↔ ∃ key, Held calls key ∧ Sets key p i := by
  have hempty : (({} : Keyboard).part p).testBit i = false := by
    have hpart : ({} : Keyboard).part p = 0 := by cases p <;> rfl
    rw [hpart, Nat.zero_testBit]
  -- From the end: what is held depends on the last call and on what was held before it.
  induction calls using List.reverseRecOn with
  | nil => exact iff_of_false (Bool.eq_false_iff.mp hempty) fun ⟨_, h, _⟩ => not_held_nil h
  | append_singleton calls c ih =>
    rw [run_concat]
    cases c with
    | press pressed =>
      rw [call, testBit_press]
      constructor
      · rintro (hsets | hbit)
        · exact ⟨pressed, held_concat_iff.mpr (.inl rfl), hsets⟩
        · obtain ⟨key, hheld, hsets⟩ := ih.mp hbit
          exact ⟨key, held_concat_iff.mpr (.inr ⟨hheld, nofun⟩), hsets⟩
      · rintro ⟨key, hheld, hsets⟩
        rcases held_concat_iff.mp hheld with hkey | ⟨hheld, -⟩
        · cases hkey
          exact .inl hsets
        · exact .inr (ih.mpr ⟨key, hheld, hsets⟩)
    | clear =>
      refine iff_of_false (Bool.eq_false_iff.mp hempty) ?_
      rintro ⟨key, hheld, -⟩
      rcases held_concat_iff.mp hheld with hkey | ⟨-, hclear⟩
      · cases hkey
      · exact hclear rfl

/-! ### Letters -/

theorem isAlpha_iff (c : Char) : c.isAlpha = true ↔
    0x41 ≤ c.toNat ∧ c.toNat ≤ 0x5A ∨ 0x61 ≤ c.toNat ∧ c.toNat ≤ 0x7A := by
  have halpha : c.isAlpha = (decide ('A'.val ≤ c.val ∧ c.val ≤ 'Z'.val) ||
      (decide ('a'.val ≤ c.val) && decide (c.val ≤ 'z'.val))) := rfl
  rw [halpha, Bool.or_eq_true, Bool.and_eq_true, decide_eq_true_eq, decide_eq_true_eq,
    decide_eq_true_eq]
  exact Iff.rfl

theorem toNat_toLower (c : Char) : c.toLower.toNat =
    if 0x41 ≤ c.toNat ∧ c.toNat ≤ 0x5A then c.toNat + 0x20 else c.toNat := by
  unfold Char.toLower
  simp only [ge_iff_le, UInt32.le_iff_toNat_le]
  split
  next h =>
    have hle : c.toNat ≤ 0x5A := h.2
    have hsum : (c.val + ('a'.val - 'A'.val)).toNat = (c.toNat + 0x20) % 2 ^ 32 :=
      UInt32.toNat_add _ _
    have hlt : c.toNat + 0x20 < 2 ^ 32 := by omega
    exact hsum.trans ((Nat.mod_eq_of_lt hlt).trans (if_pos h).symm)
  next h => exact (if_neg h).symm

theorem isAlpha_iff_toLower {c : Char} :
    c.isAlpha = true ↔ ∃ i < 26, c.toLower.toNat = 0x61 + i := by
  rw [isAlpha_iff, toNat_toLower]
  constructor
  · intro h
    refine ⟨(if 0x41 ≤ c.toNat ∧ c.toNat ≤ 0x5A then c.toNat + 0x20 else c.toNat) - 0x61, ?_, ?_⟩
    all_goals split <;> omega
  · rintro ⟨i, hlt, hi⟩
    split at hi <;> omega

/-- Letters that differ in their case only have the same place in the alphabet. -/
theorem letterIndex?_eq_some_iff {c : Char} :
    letterIndex? c.toNat = some i ↔ i < 26 ∧ c.toLower.toNat = 0x61 + i := by
  rw [toNat_toLower, letterIndex?]
  split
  next hlower => rw [if_neg (by omega), Option.some.injEq]; omega
  next hlower =>
    split
    next hupper => rw [Option.some.injEq]; omega
    next hupper => simp only [reduceCtorEq, false_iff]; omega

theorem letterIndex?_byte {b : UInt8} : letterIndex? b.toNat = some i ↔
    i < 26 ∧ (Char.ofUInt8 b).toLower.toNat = 0x61 + i := by
  rw [← letterIndex?_eq_some_iff]
  exact Iff.rfl

/-! ### Queries -/

/-- The letter is held, in either case. -/
def Typed (calls : List Call) (c : Char) : Prop :=
  ∃ b, Held calls (.letter b) ∧ (Char.ofUInt8 b).toLower = c.toLower

theorem hasLetter_run {c : Char} :
    (run calls).hasLetter c = true ↔ c.isAlpha = true ∧ Typed calls c := by
  have hbit {i : Nat} : ((run calls).part .letters).testBit i = true ↔ _ := testBit_run
  rw [hasLetter, Option.any_eq_true]
  constructor
  · rintro ⟨i, hi, hset⟩
    obtain ⟨_, hheld, ⟨hb⟩⟩ := hbit.mp hset
    obtain ⟨hlt, hc⟩ := letterIndex?_eq_some_iff.mp hi
    obtain ⟨-, hb⟩ := letterIndex?_byte.mp hb
    exact ⟨isAlpha_iff_toLower.mpr ⟨i, hlt, hc⟩, _, hheld, Char.toNat_inj.mp (hb.trans hc.symm)⟩
  · rintro ⟨hc, b, hheld, hlower⟩
    obtain ⟨i, hlt, hi⟩ := isAlpha_iff_toLower.mp hc
    exact ⟨i, letterIndex?_eq_some_iff.mpr ⟨hlt, hi⟩,
      hbit.mpr ⟨_, hheld, .letter (letterIndex?_byte.mpr ⟨hlt, hlower ▸ hi⟩)⟩⟩

theorem hasDigit_eq_true_iff : (run calls).hasDigit n = true ↔
    ∃ d : UInt8, d < 10 ∧ Held calls (.digit d) ∧ d.toNat = n := by
  have hbit : ((run calls).part .digits).testBit n = true ↔ _ := testBit_run
  rw [hasDigit, Bool.and_eq_true, decide_eq_true_eq]
  constructor
  · rintro ⟨-, hset⟩
    obtain ⟨_, hheld, _ | ⟨hd, hi⟩⟩ := hbit.mp hset
    exact ⟨_, hd, hheld, hi⟩
  · rintro ⟨d, hd, hheld, hi⟩
    exact ⟨hi ▸ UInt8.lt_iff_toNat_lt.mp hd, hbit.mpr ⟨_, hheld, .digit hd hi⟩⟩

theorem hasDigit_run {d : UInt8} :
    (run calls).hasDigit d.toNat = true ↔ d < 10 ∧ Held calls (.digit d) := by
  rw [hasDigit_eq_true_iff]
  constructor
  · rintro ⟨e, he, hheld, hi⟩
    rw [← UInt8.toNat_inj.mp hi]
    exact ⟨he, hheld⟩
  · rintro ⟨hd, hheld⟩
    exact ⟨d, hd, hheld, rfl⟩

theorem getElem?_all (name : NamedKey) : NamedKey.all[name.index]? = some name := by
  cases name <;> rfl

theorem index_injective {name other : NamedKey} (h : name.index = other.index) : name = other :=
  Option.some.inj ((getElem?_all name).symm.trans (h ▸ getElem?_all other))

theorem has_run {name : NamedKey} :
    (run calls).has name = true ↔ Held calls (.named name) := by
  refine (testBit_run (p := .named)).trans ⟨?_, fun h => ⟨_, h, .named rfl⟩⟩
  rintro ⟨_, hheld, _ | _ | hi⟩
  rwa [← index_injective hi]

theorem firstDigit?_run {d : UInt8} : (run calls).firstDigit? = some d.toNat ↔
    d < 10 ∧ Held calls (.digit d) ∧ ∀ e, Held calls (.digit e) → d ≤ e := by
  rw [firstDigit?, pressedDigits, List.head?_filter, List.find?_range_eq_some, hasDigit_run,
    and_assoc]
  refine and_congr_right fun hd => and_congr_right fun _ => ⟨?_, fun hleast => ⟨?_, ?_⟩⟩
  · rintro ⟨-, hleast⟩ e hheld
    refine UInt8.not_lt.mp fun hlt => ?_
    have hset := hasDigit_run.mpr ⟨UInt8.lt_trans hlt hd, hheld⟩
    have hclear := hleast e.toNat (UInt8.lt_iff_toNat_lt.mp hlt)
    rw [hset] at hclear
    cases hclear
  · exact List.mem_range.mpr (UInt8.lt_iff_toNat_lt.mp hd)
  · intro j hj
    rw [Bool.not_eq_true', Bool.eq_false_iff]
    intro hset
    obtain ⟨e, -, hheld, rfl⟩ := hasDigit_eq_true_iff.mp hset
    exact Nat.not_le.mpr hj (UInt8.le_iff_toNat_le.mp (hleast e hheld))

theorem firstDigit?_run_eq_none :
    (run calls).firstDigit? = none ↔ ∀ d < 10, ¬Held calls (.digit d) := by
  rw [firstDigit?, pressedDigits, List.head?_filter, List.find?_eq_none]
  constructor
  · intro h d hd hheld
    exact h d.toNat (List.mem_range.mpr (UInt8.lt_iff_toNat_lt.mp hd)) (hasDigit_run.mpr ⟨hd, hheld⟩)
  · intro h n _ hset
    obtain ⟨d, hd, hheld, -⟩ := hasDigit_eq_true_iff.mp hset
    exact h d hd hheld

theorem directions_run {wasd : Bool} {name : NamedKey} {c : Char} (hc : c.isAlpha = true) :
    ((run calls).has name || (wasd && (run calls).hasLetter c)) = true ↔
      Held calls (.named name) ∨ wasd = true ∧ Typed calls c := by
  rw [Bool.or_eq_true, Bool.and_eq_true, has_run, hasLetter_run]
  simp only [hc, true_and]

/-! ### Equal keyboards -/

/-- The key that a press stands for: the lower case letter for one of either case. Bytes that are no
letter and values that are no digit stand for none. -/
def fold? : Key → Option Key
  | .named name => some (.named name)
  | .letter b =>
    let c := Char.ofUInt8 b
    if c.isAlpha then some (.letter (UInt8.ofNat c.toLower.toNat)) else none
  | .digit d => if d < 10 then some (.digit d) else none

/-- A key that stands for this one is held. -/
def Recorded (calls : List Call) (key : Key) : Prop :=
  ∃ pressed, Held calls pressed ∧ fold? pressed = some key

/-- The set that a key belongs to. -/
def partOf : Key → Part
  | .letter _ => .letters
  | .digit _ => .digits
  | .named _ => .named

/-- The key that stands for what sets this bit. -/
def keyAt : Part → Nat → Key
  | .letters, i => .letter (UInt8.ofNat (0x61 + i))
  | .digits, i => .digit (UInt8.ofNat i)
  | .named, i => .named (NamedKey.all[i]?.getD default)

theorem partOf_keyAt (p : Part) (i : Nat) : partOf (keyAt p i) = p := by
  cases p <;> rfl

theorem Sets.fold? {p : Part} (h : Sets key p i) : fold? key = some (keyAt p i) := by
  cases h with
  | letter hi =>
    obtain ⟨hlt, hlower⟩ := letterIndex?_byte.mp hi
    have halpha := isAlpha_iff_toLower.mpr ⟨_, hlt, hlower⟩
    simp only [Keyboard.fold?, halpha, if_true, hlower, keyAt]
  | digit hd hi => rw [Keyboard.fold?, if_pos hd, keyAt, ← hi, UInt8.ofNat_toNat]
  | named hi => rw [Keyboard.fold?, keyAt, ← hi, getElem?_all, Option.getD_some]

theorem exists_sets_of_fold? (h : fold? pressed = some key) :
    ∃ i, Sets pressed (partOf key) i ∧ keyAt (partOf key) i = key := by
  have hsets : ∃ p i, Sets pressed p i := by
    cases pressed with
    | named name => exact ⟨_, _, .named rfl⟩
    | letter b =>
      rw [fold?] at h
      split at h
      next halpha =>
        obtain ⟨i, hi⟩ := isAlpha_iff_toLower.mp halpha
        exact ⟨_, i, .letter (letterIndex?_byte.mpr hi)⟩
      next => cases h
    | digit d =>
      rw [fold?] at h
      split at h
      next hd => exact ⟨_, _, .digit hd rfl⟩
      next => cases h
  obtain ⟨p, i, hsets⟩ := hsets
  cases hsets.fold?.symm.trans h
  rw [partOf_keyAt]
  exact ⟨i, hsets, rfl⟩

/-- A bit of a place stands for one key only. -/
theorem Sets.keyAt {p : Part} (h : Sets key p i) : Sets (keyAt p i) p i := by
  cases h with
  | letter hi =>
    have hletters : ∀ i < 26, letterIndex? (UInt8.ofNat (0x61 + i)).toNat = some i := by decide
    exact .letter (hletters i (letterIndex?_byte.mp hi).1)
  | digit hd hi =>
    rw [Keyboard.keyAt, ← hi, UInt8.ofNat_toNat]
    exact .digit hd rfl
  | named hi =>
    rw [Keyboard.keyAt, ← hi, getElem?_all, Option.getD_some]
    exact .named rfl

theorem recorded_iff : Recorded calls key ↔
    ∃ i, ((run calls).part (partOf key)).testBit i = true ∧ keyAt (partOf key) i = key := by
  constructor
  · rintro ⟨pressed, hheld, hfold⟩
    obtain ⟨i, hsets, hkey⟩ := exists_sets_of_fold? hfold
    exact ⟨i, testBit_run.mpr ⟨pressed, hheld, hsets⟩, hkey⟩
  · rintro ⟨i, hset, hkey⟩
    obtain ⟨pressed, hheld, hsets⟩ := testBit_run.mp hset
    exact ⟨pressed, hheld, hsets.fold?.trans (congrArg some hkey)⟩

variable {other : List Call} {p : Part}

theorem testBit_of_recorded
    (h : ∀ key, partOf key = p → Recorded calls key → Recorded other key)
    (hset : ((run calls).part p).testBit i = true) : ((run other).part p).testBit i = true := by
  obtain ⟨pressed, hheld, hsets⟩ := testBit_run.mp hset
  have hrecorded := h (keyAt p i) (partOf_keyAt p i) ⟨pressed, hheld, hsets.fold?⟩
  obtain ⟨j, hj, hkey⟩ := recorded_iff.mp hrecorded
  rw [partOf_keyAt] at hj hkey
  obtain ⟨_, -, hother⟩ := testBit_run.mp hj
  have hplace := sets_iff.mp hother.keyAt
  rw [hkey, sets_iff.mp hsets.keyAt] at hplace
  cases hplace
  exact hj

/-- A bit set depends on the recorded keys that belong to it, and on nothing else. -/
theorem part_run_eq_iff : (run calls).part p = (run other).part p ↔
    ∀ key, partOf key = p → (Recorded calls key ↔ Recorded other key) := by
  constructor
  · rintro h key rfl
    rw [recorded_iff, recorded_iff, h]
  · intro h
    refine Nat.eq_of_testBit_eq fun i => Bool.eq_iff_iff.mpr ⟨?_, ?_⟩
    · exact testBit_of_recorded fun key hkey => (h key hkey).mp
    · exact testBit_of_recorded fun key hkey => (h key hkey).mpr

theorem eq_of_parts {k l : Keyboard} (h : ∀ p, k.part p = l.part p) : k = l := by
  obtain ⟨letters, digits, named⟩ := k
  cases h .letters
  cases h .digits
  cases h .named
  rfl

theorem run_eq_iff : run calls = run other ↔ ∀ key, Recorded calls key ↔ Recorded other key := by
  constructor
  · intro h key
    rw [recorded_iff, recorded_iff, h]
  · exact fun h => eq_of_parts fun p => part_run_eq_iff.mpr fun key _ => h key

theorem isEmpty_iff {k : Keyboard} : k.isEmpty = true ↔ k = {} := by
  obtain ⟨letters, digits, named⟩ := k
  simp [isEmpty, and_assoc]

theorem isEmpty_run : (run calls).isEmpty = true ↔ ∀ key, ¬Recorded calls key := by
  have hnone (key : Key) : ¬Recorded [] key := fun ⟨_, hheld, _⟩ => not_held_nil hheld
  have hempty : (run calls).isEmpty = true ↔ run calls = run [] := isEmpty_iff
  rw [hempty, run_eq_iff]
  exact forall_congr' fun key => iff_false_right (hnone key)

/-! ### Machine words -/

/-- A keyboard in machine words, which are written and read through masks of one bit. -/
structure Words where
  letters : BitVec 32 := 0
  digits : BitVec 16 := 0
  named : BitVec 16 := 0

namespace Words

/-- A word in which bit `i` is set. -/
def mask (m i : Nat) : BitVec m :=
  1#m <<< i

/-- The mask of an ASCII letter of either case. -/
def letterMask? (b : UInt8) : Option (BitVec 32) :=
  let c := Char.ofUInt8 b
  if c.isAlpha then some (mask 32 (c.toLower.toNat - 0x61)) else none

/-- Sets the bit of a key, if it has one. -/
def press (w : Words) : Key → Words
  | .named name => { w with named := w.named ||| mask 16 name.index }
  | .letter b =>
    match letterMask? b with
    | some bit => { w with letters := w.letters ||| bit }
    | none => w
  | .digit d => if d < 10 then { w with digits := w.digits ||| mask 16 d.toNat } else w

/-- The words after a call. -/
def call (w : Words) : Call → Words
  | .press key => w.press key
  | .clear => {}

/-- The words of a new keyboard after calls. -/
def run (calls : List Call) : Words :=
  calls.foldl call {}

/-- Only a character of one byte is looked up. -/
def hasLetter (w : Words) (c : Char) : Bool :=
  c.toNat < 0x100 && (letterMask? (UInt8.ofNat c.toNat)).any fun bit => w.letters &&& bit != 0

/-- Whether the bit of a digit is set. -/
def hasDigit (w : Words) (d : UInt8) : Bool :=
  d < 10 && w.digits &&& mask 16 d.toNat != 0

/-- Whether the bit of a named key is set. -/
def has (w : Words) (name : NamedKey) : Bool :=
  w.named &&& mask 16 name.index == mask 16 name.index

/-- The count of trailing zeros, unless every bit is zero. -/
def firstDigit? (w : Words) : Option UInt8 :=
  if w.digits = 0 then none else some (UInt8.ofNat w.digits.ctz.toNat)

/-- Whether no bit is set. -/
def isEmpty (w : Words) : Bool :=
  w.letters == 0 && w.digits == 0 && w.named == 0

/-- The numbers that the words hold. -/
def keyboard (w : Words) : Keyboard :=
  ⟨w.letters.toNat, w.digits.toNat, w.named.toNat⟩

theorem toNat_or_mask {m : Nat} (w : BitVec m) (hi : i < m) :
    (w ||| mask m i).toNat = insert w.toNat i := by
  have hlt : 2 ^ i < 2 ^ m := Nat.pow_lt_pow_right (by decide) hi
  rw [BitVec.toNat_or, mask, ← BitVec.twoPow_eq, BitVec.toNat_twoPow, Nat.mod_eq_of_lt hlt, insert,
    Nat.one_shiftLeft]

theorem and_mask {m : Nat} (w : BitVec m) (i : Nat) :
    w &&& mask m i = if w.toNat.testBit i = true then mask m i else 0 := by
  rw [mask, ← BitVec.twoPow_eq, BitVec.and_twoPow]
  rfl

theorem mask_ne_zero {m : Nat} (hi : i < m) : mask m i ≠ 0 := by
  intro h
  have hlt : 2 ^ i < 2 ^ m := Nat.pow_lt_pow_right (by decide) hi
  have hvalue := congrArg BitVec.toNat h
  rw [mask, ← BitVec.twoPow_eq, BitVec.toNat_twoPow, Nat.mod_eq_of_lt hlt] at hvalue
  exact Nat.ne_of_gt (Nat.two_pow_pos i) hvalue

theorem and_mask_bne {m : Nat} (w : BitVec m) (hi : i < m) :
    (w &&& mask m i != 0) = w.toNat.testBit i := by
  rw [and_mask]
  split
  next h => rw [h]; exact bne_iff_ne.mpr (mask_ne_zero hi)
  next h => rw [Bool.eq_false_iff.mpr h]; exact bne_self_eq_false _

theorem and_mask_beq {m : Nat} (w : BitVec m) (hi : i < m) :
    (w &&& mask m i == mask m i) = w.toNat.testBit i := by
  rw [and_mask]
  split
  next h => rw [h]; exact beq_self_eq_true _
  next h => rw [Bool.eq_false_iff.mpr h]; exact beq_eq_false_iff_ne.mpr (mask_ne_zero hi).symm

theorem letterMask?_eq (b : UInt8) : letterMask? b = (letterIndex? b.toNat).map (mask 32) := by
  cases hplace : letterIndex? b.toNat with
  | none =>
    have halpha : ¬(Char.ofUInt8 b).isAlpha = true := by
      intro h
      obtain ⟨i, hi⟩ := isAlpha_iff_toLower.mp h
      rw [letterIndex?_byte.mpr hi] at hplace
      cases hplace
    exact if_neg halpha
  | some i =>
    obtain ⟨hlt, hlower⟩ := letterIndex?_byte.mp hplace
    rw [letterMask?, if_pos (isAlpha_iff_toLower.mpr ⟨i, hlt, hlower⟩), hlower,
      Nat.add_sub_cancel_left, Option.map_some]

theorem index_lt (name : NamedKey) : name.index < 9 := by
  cases name <;> decide

theorem keyboard_press (w : Words) (key : Key) : (w.press key).keyboard = w.keyboard.press key := by
  cases key with
  | named name =>
    have hset := toNat_or_mask w.named (Nat.lt_trans (index_lt name) (by decide))
    simp only [press, Keyboard.press, keyboard, hset]
  | letter b =>
    rw [press, letterMask?_eq, Keyboard.press]
    cases hplace : letterIndex? b.toNat with
    | none => rfl
    | some i =>
      have hset := toNat_or_mask w.letters (Nat.lt_trans (letterIndex?_byte.mp hplace).1 (by decide))
      simp only [Option.map_some, keyboard, hset]
  | digit d =>
    rw [press, Keyboard.press]
    split
    next hd =>
      have hset := toNat_or_mask w.digits (Nat.lt_trans (UInt8.lt_iff_toNat_lt.mp hd) (by decide))
      simp only [keyboard, hset]
    next => rfl

theorem keyboard_run (calls : List Call) : (run calls).keyboard = Keyboard.run calls := by
  induction calls using List.reverseRecOn with
  | nil => rfl
  | append_singleton calls c ih =>
    rw [run_concat, ← ih, run, List.foldl_append, List.foldl_cons, List.foldl_nil]
    cases c with
    | press key => exact keyboard_press _ key
    | clear => rfl

theorem hasLetter_keyboard (w : Words) (c : Char) : w.hasLetter c = w.keyboard.hasLetter c := by
  by_cases hc : c.toNat < 0x100
  · have hbyte : (UInt8.ofNat c.toNat).toNat = c.toNat := by
      rw [UInt8.toNat_ofNat']
      exact Nat.mod_eq_of_lt hc
    rw [hasLetter, letterMask?_eq, hbyte, decide_eq_true hc, Bool.true_and, Keyboard.hasLetter]
    cases hplace : letterIndex? c.toNat with
    | none => rfl
    | some i =>
      exact and_mask_bne _ (Nat.lt_trans (letterIndex?_eq_some_iff.mp hplace).1 (by decide))
  · have hnone : letterIndex? c.toNat = none := by
      rw [letterIndex?, if_neg (by omega), if_neg (by omega)]
    rw [hasLetter, decide_eq_false hc, Bool.false_and, Keyboard.hasLetter, hnone, Option.any_none]

theorem hasDigit_keyboard (w : Words) (d : UInt8) : w.hasDigit d = w.keyboard.hasDigit d.toNat := by
  by_cases hd : d < 10
  · have hlt : d.toNat < 10 := UInt8.lt_iff_toNat_lt.mp hd
    rw [hasDigit, decide_eq_true hd, and_mask_bne _ (Nat.lt_trans hlt (by decide)),
      Keyboard.hasDigit, decide_eq_true hlt, keyboard]
  · have hlt : ¬d.toNat < 10 := fun h => hd (UInt8.lt_iff_toNat_lt.mpr h)
    rw [hasDigit, decide_eq_false hd, Keyboard.hasDigit, decide_eq_false hlt, Bool.false_and,
      Bool.false_and]

theorem has_keyboard (w : Words) (name : NamedKey) : w.has name = w.keyboard.has name :=
  and_mask_beq w.named (Nat.lt_trans (index_lt name) (by decide))

theorem isEmpty_keyboard (w : Words) : w.isEmpty = w.keyboard.isEmpty := by
  rw [Bool.eq_iff_iff, isEmpty_iff]
  simp [isEmpty, keyboard, BitVec.toNat_eq, and_assoc]

/-- The lowest bit of the digits has as many zeros behind it as its digit says. -/
theorem firstDigit?_keyboard {w : Words} (hdigits : ∀ i, w.digits.toNat.testBit i = true → i < 10) :
    w.firstDigit?.map UInt8.toNat = w.keyboard.firstDigit? := by
  rw [firstDigit?, Keyboard.firstDigit?, pressedDigits, List.head?_filter]
  split
  next hzero =>
    refine (List.find?_eq_none.mpr fun n _ hset => ?_).symm
    rw [Keyboard.hasDigit, keyboard, hzero] at hset
    simp at hset
  next hne =>
    have hset := BitVec.getLsbD_true_ctz_of_ne_zero hne
    have hlt := hdigits _ hset
    have hbyte : (UInt8.ofNat w.digits.ctz.toNat).toNat = w.digits.ctz.toNat := by
      rw [UInt8.toNat_ofNat']
      exact Nat.mod_eq_of_lt (Nat.lt_trans hlt (by decide))
    rw [Option.map_some, hbyte]
    refine (List.find?_range_eq_some.mpr ⟨?_, List.mem_range.mpr hlt, fun j hj => ?_⟩).symm
    · rw [Keyboard.hasDigit, decide_eq_true hlt]
      exact hset
    · have hclear := BitVec.getLsbD_false_of_lt_ctz hj
      rw [Keyboard.hasDigit, Bool.not_eq_true', Bool.and_eq_false_iff]
      exact .inr hclear

/-- The words hold the keyboard and answer as it does. -/
structure Answers (w : Words) (k : Keyboard) : Prop where
  keyboard : w.keyboard = k
  hasLetter : ∀ c, w.hasLetter c = k.hasLetter c
  hasDigit : ∀ d, w.hasDigit d = k.hasDigit d.toNat
  has : ∀ name, w.has name = k.has name
  firstDigit? : w.firstDigit?.map UInt8.toNat = k.firstDigit?
  isEmpty : w.isEmpty = k.isEmpty

theorem answers_run (calls : List Call) : Answers (run calls) (Keyboard.run calls) := by
  have hrun := keyboard_run calls
  have hdigits (i : Nat) (hset : (run calls).digits.toNat.testBit i = true) : i < 10 := by
    have hpart : ((Keyboard.run calls).part .digits).testBit i = true := hrun ▸ hset
    obtain ⟨_, -, _ | ⟨hd, rfl⟩⟩ := testBit_run.mp hpart
    exact UInt8.lt_iff_toNat_lt.mp hd
  rw [← hrun]
  exact ⟨rfl, hasLetter_keyboard _, hasDigit_keyboard _, has_keyboard _,
    firstDigit?_keyboard hdigits, isEmpty_keyboard _⟩

end Words

/-! ### Runs -/

/-- After any calls the keyboard is the set of the keys pressed since it was last cleared, where a
letter stands for itself in both cases, and bytes that are no letter and values that are no digit for
no key. Each query answers from this set, and machine words answer alike. A run that records the same
keys, in any order and as often as may be, leaves an equal keyboard; and each of the three bit sets
depends on the keys of its own kind and on no others. -/
theorem run_holds_pressed_keys (calls : List Call) :
    (∀ c : Char, (run calls).hasLetter c = true ↔ c.isAlpha = true ∧ Typed calls c) ∧
    (∀ d : UInt8, (run calls).hasDigit d.toNat = true ↔ d < 10 ∧ Held calls (.digit d)) ∧
    (∀ name, (run calls).has name = true ↔ Held calls (.named name)) ∧
    (∀ d : UInt8, (run calls).firstDigit? = some d.toNat ↔
      d < 10 ∧ Held calls (.digit d) ∧ ∀ e, Held calls (.digit e) → d ≤ e) ∧
    ((run calls).firstDigit? = none ↔ ∀ d < 10, ¬Held calls (.digit d)) ∧
    ((run calls).isEmpty = true ↔ ∀ key, ¬Recorded calls key) ∧
    (∀ wasd, let d := (run calls).directions wasd
      (d.up = true ↔ Held calls (.named .up) ∨ wasd = true ∧ Typed calls 'w') ∧
      (d.down = true ↔ Held calls (.named .down) ∨ wasd = true ∧ Typed calls 's') ∧
      (d.left = true ↔ Held calls (.named .left) ∨ wasd = true ∧ Typed calls 'a') ∧
      (d.right = true ↔ Held calls (.named .right) ∨ wasd = true ∧ Typed calls 'd')) ∧
    (Words.run calls).Answers (run calls) ∧
    ∀ other : List Call,
      (run calls = run other ↔ ∀ key, Recorded calls key ↔ Recorded other key) ∧
      ((run calls).letters = (run other).letters ↔
        ∀ b, Recorded calls (.letter b) ↔ Recorded other (.letter b)) ∧
      ((run calls).digits = (run other).digits ↔
        ∀ d, Recorded calls (.digit d) ↔ Recorded other (.digit d)) ∧
      ((run calls).named = (run other).named ↔
        ∀ name, Recorded calls (.named name) ↔ Recorded other (.named name)) := by
  refine ⟨fun c => hasLetter_run, fun d => hasDigit_run, fun name => has_run,
    fun d => firstDigit?_run, firstDigit?_run_eq_none, isEmpty_run,
    fun wasd => ⟨directions_run rfl, directions_run rfl, directions_run rfl, directions_run rfl⟩,
    Words.answers_run calls, fun other => ⟨run_eq_iff, ?_, ?_, ?_⟩⟩
  · refine (part_run_eq_iff (p := .letters)).trans ⟨fun h b => h (.letter b) rfl, ?_⟩
    rintro h (_ | b | _) ⟨⟩
    exact h b
  · refine (part_run_eq_iff (p := .digits)).trans ⟨fun h d => h (.digit d) rfl, ?_⟩
    rintro h (_ | _ | d) ⟨⟩
    exact h d
  · refine (part_run_eq_iff (p := .named)).trans ⟨fun h name => h (.named name) rfl, ?_⟩
    rintro h (name | _ | _) ⟨⟩
    exact h name

end Keyboard
end RemoteScreen
