/-!
UTF-8 for every 21-bit code point, surrogates and values above U+10FFFF included. Writing takes a
code point modulo 2^21. Reading never fails: a byte that opens no sequence stands for its own low
bits, and a sequence that is cut short ends at the first byte that does not continue it.
-/

namespace RemoteScreen.CodePoint

/-- The number of code points. -/
def limit : Nat := 0x200000

/-- A byte that carries the low six bits of `n`. -/
def continuation (n : Nat) : UInt8 :=
  UInt8.ofNat (0x80 + n % 0x40)

/-- The bytes of a code point, one to four. -/
def encode (cp : Nat) : List UInt8 :=
  let n := cp % limit
  if n < 0x80 then [UInt8.ofNat n]
  else if n < 0x800 then [UInt8.ofNat (0xC0 + n / 0x40), continuation n]
  else if n < 0x10000 then
    [UInt8.ofNat (0xE0 + n / 0x1000), continuation (n / 0x40), continuation n]
  else
    [UInt8.ofNat (0xF0 + n / 0x40000), continuation (n / 0x1000), continuation (n / 0x40),
      continuation n]

theorem encode_ne_nil (cp : Nat) : encode cp ≠ [] := by
  simp only [encode]
  split
  · simp
  split
  · simp
  split <;> simp

theorem length_encode_le (cp : Nat) : (encode cp).length ≤ 4 := by
  simp only [encode]
  split
  · simp
  split
  · simp
  split <;> simp

/-- The bytes of some code points, one after another. -/
def encodeAll (cps : List Nat) : List UInt8 :=
  cps.flatMap encode

/-- The bytes of a text. -/
def encodeText (text : String) : List UInt8 :=
  encodeAll (text.toList.map Char.toNat)

/-- Whether a byte continues a sequence: its two high bits are 1 and 0. -/
def isContinuation (b : UInt8) : Bool :=
  0x80 ≤ b && b < 0xC0

/-- How many one bits a byte begins with. -/
def leadingOnes (b : UInt8) : Nat :=
  if b < 0x80 then 0
  else if b < 0xC0 then 1
  else if b < 0xE0 then 2
  else if b < 0xF0 then 3
  else if b < 0xF8 then 4
  else if b < 0xFC then 5
  else if b < 0xFE then 6
  else if b < 0xFF then 7
  else 8

/-- Appends up to `n` continuation bytes to `value`, six bits each; gives the bytes that are left. -/
def continueWith (value : Nat) : Nat → List UInt8 → Nat × List UInt8
  | n + 1, b :: rest =>
    if isContinuation b then continueWith (value * 0x40 + b.toNat % 0x40) n rest
    else (value, b :: rest)
  | _, rest => (value, rest)

/-- The code point that begins with the byte `lead`, and the bytes after it. -/
def readAfter (lead : UInt8) (rest : List UInt8) : Nat × List UInt8 :=
  match leadingOnes lead with
  | 0 => (lead.toNat, rest)
  | ones + 1 => continueWith (lead.toNat % (1 <<< (6 - ones))) (min ones 3) rest

/-- The first code point of `bytes` and how many bytes it takes, zero for no bytes at all. -/
def decode : List UInt8 → Nat × Nat
  | [] => (0, 0)
  | lead :: rest =>
    let (cp, left) := readAfter lead rest
    (cp, rest.length + 1 - left.length)

theorem length_continueWith_le (value n : Nat) (bytes : List UInt8) :
    (continueWith value n bytes).2.length ≤ bytes.length := by
  induction bytes generalizing value n with
  | nil => cases n <;> simp [continueWith]
  | cons b rest ih =>
    cases n with
    | zero => simp [continueWith]
    | succ n =>
      rw [continueWith]
      split
      · exact Nat.le_succ_of_le (ih _ n)
      · exact Nat.le_refl _

theorem length_readAfter_le (lead : UInt8) (rest : List UInt8) :
    (readAfter lead rest).2.length ≤ rest.length := by
  unfold readAfter
  split
  · exact Nat.le_refl _
  · exact length_continueWith_le _ _ _

/-- All code points of `bytes`. -/
def decodeAll : List UInt8 → List Nat
  | [] => []
  | lead :: rest => (readAfter lead rest).1 :: decodeAll (readAfter lead rest).2
termination_by bytes => bytes.length
decreasing_by
  have := length_readAfter_le lead rest
  simp only [List.length_cons]
  omega

end RemoteScreen.CodePoint
