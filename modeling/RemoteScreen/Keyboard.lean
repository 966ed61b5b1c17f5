import RemoteScreen.Telnet.Event

/-!
The keyboard remembers which keys have been pressed since it was last cleared, in three bit sets:
letters of either case, digits, and named keys.
-/

namespace RemoteScreen

open Telnet (Key NamedKey)

/-- The four directions that are held. -/
structure Directions where
  up : Bool
  down : Bool
  left : Bool
  right : Bool
  deriving DecidableEq, Inhabited

namespace Directions

/-- Whether any direction is held. -/
def any (d : Directions) : Bool :=
  d.up || d.down || d.left || d.right

/-- The horizontal axis: −1 to the left, 1 to the right, 0 for neither or both. -/
def dx (d : Directions) : Int :=
  (if d.right then 1 else 0) - (if d.left then 1 else 0)

/-- The vertical axis: −1 up, 1 down, 0 for neither or both. -/
def dy (d : Directions) : Int :=
  (if d.down then 1 else 0) - (if d.up then 1 else 0)

end Directions

/-- The bit of a named key, counted from zero. -/
def Telnet.NamedKey.index : NamedKey → Nat
  | .space => 0
  | .enter => 1
  | .escape => 2
  | .up => 3
  | .down => 4
  | .left => 5
  | .right => 6
  | .tab => 7
  | .backspace => 8

/-- Every named key, by index. -/
def Telnet.NamedKey.all : List NamedKey :=
  [.space, .enter, .escape, .up, .down, .left, .right, .tab, .backspace]

/-- The keys that have been pressed since the last clearing, as bit sets. -/
structure Keyboard where
  /-- Bit `n` is the `n`-th letter. -/
  letters : Nat := 0
  /-- Bit `n` is the digit `n`. -/
  digits : Nat := 0
  /-- Bit `n` is the named key of index `n`. -/
  named : Nat := 0
  deriving DecidableEq, Inhabited

namespace Keyboard

/-- The place in the alphabet of an ASCII letter of either case. -/
def letterIndex? (n : Nat) : Option Nat :=
  if 0x61 ≤ n ∧ n ≤ 0x7A then some (n - 0x61)
  else if 0x41 ≤ n ∧ n ≤ 0x5A then some (n - 0x41)
  else none

/-- A bit set with bit `i`. -/
def insert (bits i : Nat) : Nat :=
  bits ||| 1 <<< i

/-- Remembers a key. Bytes that are no letter and values that are no digit are no keys. -/
def press (k : Keyboard) : Key → Keyboard
  | .named key => { k with named := insert k.named key.index }
  | .letter b =>
    match letterIndex? b.toNat with
    | some i => { k with letters := insert k.letters i }
    | none => k
  | .digit d => if d < 10 then { k with digits := insert k.digits d.toNat } else k

/-- Forgets every key. -/
def clear (_ : Keyboard) : Keyboard := {}

/-- Whether no key has been pressed. -/
def isEmpty (k : Keyboard) : Bool :=
  k.letters = 0 && k.digits = 0 && k.named = 0

/-- Whether a letter was pressed, in either case. -/
def hasLetter (k : Keyboard) (c : Char) : Bool :=
  (letterIndex? c.toNat).any k.letters.testBit

/-- Whether a digit was pressed. -/
def hasDigit (k : Keyboard) (d : Nat) : Bool :=
  d < 10 && k.digits.testBit d

/-- Whether a named key was pressed. -/
def has (k : Keyboard) (key : NamedKey) : Bool :=
  k.named.testBit key.index

/-- Whether every named key of a bit set was pressed. -/
def hasAll (k : Keyboard) (keys : Nat) : Bool :=
  k.named &&& keys = keys

/-- The letters that were pressed, in alphabetical order. -/
def pressedLetters (k : Keyboard) : List Char :=
  ((List.range 26).map fun i => Char.ofNat (0x61 + i)).filter k.hasLetter

/-- The digits that were pressed, in ascending order. -/
def pressedDigits (k : Keyboard) : List Nat :=
  (List.range 10).filter k.hasDigit

/-- The lowest digit that was pressed. -/
def firstDigit? (k : Keyboard) : Option Nat :=
  k.pressedDigits.head?

/-- The arrows that were pressed, and with `wasd` the letters W, A, S and D in their place. -/
def directions (k : Keyboard) (wasd : Bool) : Directions where
  up := k.has .up || (wasd && k.hasLetter 'w')
  down := k.has .down || (wasd && k.hasLetter 's')
  left := k.has .left || (wasd && k.hasLetter 'a')
  right := k.has .right || (wasd && k.hasLetter 'd')

@[simp] theorem testBit_insert (bits i j : Nat) :
    (insert bits i).testBit j = (bits.testBit j || decide (i = j)) := by
  rw [insert, Nat.testBit_or, Nat.one_shiftLeft, Nat.testBit_two_pow]

end Keyboard
end RemoteScreen
