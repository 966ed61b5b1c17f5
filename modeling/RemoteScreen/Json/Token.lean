import RemoteScreen.Json.Basic

/-!
The tokens of a JSON document. `next?` takes the first token off a list of characters; what it
leaves is shorter.
-/

namespace RemoteScreen.Json

/-- The pieces of a document between which blanks may stand. -/
inductive Token where
  | openBracket | closeBracket | openBrace | closeBrace | comma | colon
  | null
  | bool (b : Bool)
  | number (literal : List Char)
  | text (t : Text)
  deriving DecidableEq, Inhabited

/-- The characters that may stand between tokens. -/
def isBlank (c : Char) : Bool :=
  c = ' ' || c = '\t' || c = '\n' || c = '\r'

/-- A part of a text in quotes: a character, or one 16-bit unit of an escape. -/
inductive Piece where
  | char (c : Char)
  | unit (n : Nat)
  deriving DecidableEq

/-- The value of a hexadecimal digit, in either case. -/
def hexValue? (c : Char) : Option Nat :=
  if '0' ≤ c ∧ c ≤ '9' then some (c.toNat - '0'.toNat)
  else if 'a' ≤ c ∧ c ≤ 'f' then some (c.toNat - 'a'.toNat + 10)
  else if 'A' ≤ c ∧ c ≤ 'F' then some (c.toNat - 'A'.toNat + 10)
  else none

/-- The unit that four hexadecimal digits write. -/
def unitOfHex? (a b c d : Char) : Option Nat := do
  return ((← hexValue? a) * 16 + (← hexValue? b)) * 256 + (← hexValue? c) * 16 + (← hexValue? d)

/-- The character that a backslash and one letter write. -/
def escaped? (c : Char) : Option Char :=
  match c with
  | '"' => some '"'
  | '\\' => some '\\'
  | '/' => some '/'
  | 'b' => some '\x08'
  | 'f' => some '\x0c'
  | 'n' => some '\n'
  | 'r' => some '\r'
  | 't' => some '\t'
  | _ => none

/-- The pieces of a text up to its closing quote, and the characters after the quote. Control
characters must be escaped. -/
def readPieces : List Char → Option (List Piece × List Char)
  | '"' :: rest => some ([], rest)
  | '\\' :: 'u' :: a :: b :: c :: d :: rest => do
    let n ← unitOfHex? a b c d
    let (pieces, left) ← readPieces rest
    return (.unit n :: pieces, left)
  | '\\' :: c :: rest => do
    let c ← escaped? c
    let (pieces, left) ← readPieces rest
    return (.char c :: pieces, left)
  | c :: rest =>
    if c = '\\' ∨ c < ' ' then none
    else do
      let (pieces, left) ← readPieces rest
      return (.char c :: pieces, left)
  | [] => none

/-- The character of two units, the first of the leading and the second of the trailing kind. -/
def pairSurrogates? (lead trail : Nat) : Option Char :=
  if 0xD800 ≤ lead ∧ lead < 0xDC00 ∧ 0xDC00 ≤ trail ∧ trail < 0xE000 then
    some (Char.ofNat (0x10000 + (lead - 0xD800) * 0x400 + (trail - 0xDC00)))
  else none

/-- The characters of a text, if every surrogate is one of a pair. -/
def joinPieces : List Piece → Option (List Char)
  | [] => some []
  | .char c :: rest => (joinPieces rest).map (c :: ·)
  | .unit n :: rest =>
    if n.isValidChar then (joinPieces rest).map (Char.ofNat n :: ·)
    else match rest with
      | .unit m :: rest => do
        let c ← pairSurrogates? n m
        (joinPieces rest).map (c :: ·)
      | _ => none

/-- A text after its opening quote. -/
def readText (cs : List Char) : Option (Text × List Char) := do
  let (pieces, rest) ← readPieces cs
  return ((joinPieces pieces).map String.ofList, rest)

/-- The leading digits, of which there must be one. -/
def readDigits (cs : List Char) : Option (List Char × List Char) :=
  match cs.takeWhile Char.isDigit with
  | [] => none
  | digits => some (digits, cs.dropWhile Char.isDigit)

/-- The whole part of a number: zero, or digits that do not begin with zero. -/
def readWhole : List Char → Option (List Char × List Char)
  | '0' :: rest => some (['0'], rest)
  | cs => readDigits cs

/-- The fraction of a number, if there is one. -/
def readFraction : List Char → Option (List Char × List Char)
  | '.' :: rest => (readDigits rest).map fun (digits, left) => ('.' :: digits, left)
  | cs => some ([], cs)

/-- The sign of an exponent, if there is one. -/
def readSign : List Char → List Char × List Char
  | '+' :: rest => (['+'], rest)
  | '-' :: rest => (['-'], rest)
  | cs => ([], cs)

/-- The exponent of a number, if there is one. -/
def readExponent : List Char → Option (List Char × List Char)
  | c :: rest =>
    if c = 'e' ∨ c = 'E' then
      (readDigits (readSign rest).2).map fun (digits, left) =>
        (c :: (readSign rest).1 ++ digits, left)
    else some ([], c :: rest)
  | [] => some ([], [])

/-- A number without its sign. -/
def readMagnitude (cs : List Char) : Option (List Char × List Char) := do
  let (whole, cs) ← readWhole cs
  let (fraction, cs) ← readFraction cs
  let (exponent, cs) ← readExponent cs
  return (whole ++ fraction ++ exponent, cs)

/-- A number, which a minus sign may begin, and the characters after it. -/
def readNumber : List Char → Option (List Char × List Char)
  | '-' :: rest => (readMagnitude rest).map fun (literal, left) => ('-' :: literal, left)
  | cs => readMagnitude cs

/-- The first token, and the characters after it. -/
def Token.next? : List Char → Option (Token × List Char)
  | '[' :: rest => some (.openBracket, rest)
  | ']' :: rest => some (.closeBracket, rest)
  | '{' :: rest => some (.openBrace, rest)
  | '}' :: rest => some (.closeBrace, rest)
  | ',' :: rest => some (.comma, rest)
  | ':' :: rest => some (.colon, rest)
  | 'n' :: 'u' :: 'l' :: 'l' :: rest => some (.null, rest)
  | 't' :: 'r' :: 'u' :: 'e' :: rest => some (.bool true, rest)
  | 'f' :: 'a' :: 'l' :: 's' :: 'e' :: rest => some (.bool false, rest)
  | '"' :: rest => (readText rest).map fun (t, left) => (.text t, left)
  | cs => (readNumber cs).map fun (literal, left) => (.number literal, left)

theorem readPieces_length {cs rest : List Char} {pieces : List Piece}
    (h : readPieces cs = some (pieces, rest)) : rest.length < cs.length := by
  fun_induction readPieces cs generalizing pieces with
  | case1 rest' => simp_all
  | case2 a b c d rest' ih =>
    simp only [Option.bind_eq_bind, Option.bind_eq_some_iff, Option.pure_def, Option.some.injEq,
      Prod.mk.injEq, Prod.exists] at h
    obtain ⟨_, _, _, _, hr, -, rfl⟩ := h
    have := ih hr
    simp only [List.length_cons]
    omega
  | case3 c rest' _ ih =>
    simp only [Option.bind_eq_bind, Option.bind_eq_some_iff, Option.pure_def, Option.some.injEq,
      Prod.mk.injEq, Prod.exists] at h
    obtain ⟨_, _, _, _, hr, -, rfl⟩ := h
    have := ih hr
    simp only [List.length_cons]
    omega
  | case4 => cases h
  | case5 c rest' _ _ _ _ ih =>
    simp only [Option.bind_eq_bind, Option.bind_eq_some_iff, Option.pure_def, Option.some.injEq,
      Prod.mk.injEq, Prod.exists] at h
    obtain ⟨_, _, hr, -, rfl⟩ := h
    have := ih hr
    simp only [List.length_cons]
    omega
  | case6 => cases h

theorem readText_length {cs rest : List Char} {t : Text} (h : readText cs = some (t, rest)) :
    rest.length < cs.length := by
  simp only [readText, Option.bind_eq_bind, Option.bind_eq_some_iff, Option.pure_def,
    Option.some.injEq, Prod.mk.injEq, Prod.exists] at h
  obtain ⟨_, _, hr, -, rfl⟩ := h
  exact readPieces_length hr

theorem readDigits_length {cs digits rest : List Char} (h : readDigits cs = some (digits, rest)) :
    rest.length < cs.length := by
  unfold readDigits at h
  split at h
  · cases h
  next hne =>
    cases h
    have hlen := congrArg List.length (List.takeWhile_append_dropWhile (p := Char.isDigit) (l := cs))
    have hpos := List.length_pos_iff.2 hne
    rw [List.length_append] at hlen
    omega

theorem readWhole_length {cs digits rest : List Char} (h : readWhole cs = some (digits, rest)) :
    rest.length < cs.length := by
  unfold readWhole at h
  split at h
  · cases h
    simp
  · exact readDigits_length h

theorem readFraction_length {cs literal rest : List Char}
    (h : readFraction cs = some (literal, rest)) : rest.length ≤ cs.length := by
  unfold readFraction at h
  split at h
  · obtain ⟨⟨_, _⟩, hd, he⟩ := Option.map_eq_some_iff.1 h
    cases he
    have := readDigits_length hd
    simp only [List.length_cons]
    omega
  · cases h
    exact Nat.le_refl _

theorem readSign_length (cs : List Char) : (readSign cs).2.length ≤ cs.length := by
  unfold readSign
  split <;> simp

theorem readExponent_length {cs literal rest : List Char}
    (h : readExponent cs = some (literal, rest)) : rest.length ≤ cs.length := by
  match cs with
  | [] =>
    cases h
    exact Nat.le_refl _
  | c :: cs =>
    rw [readExponent] at h
    split at h
    · obtain ⟨⟨_, _⟩, hd, he⟩ := Option.map_eq_some_iff.1 h
      cases he
      have := readDigits_length hd
      have := readSign_length cs
      simp only [List.length_cons]
      omega
    · cases h
      exact Nat.le_refl _

theorem readMagnitude_length {cs literal rest : List Char}
    (h : readMagnitude cs = some (literal, rest)) : rest.length < cs.length := by
  simp only [readMagnitude, Option.bind_eq_bind, Option.bind_eq_some_iff, Option.pure_def,
    Option.some.injEq, Prod.mk.injEq, Prod.exists] at h
  obtain ⟨_, _, hw, _, _, hf, _, _, he, -, rfl⟩ := h
  have := readWhole_length hw
  have := readFraction_length hf
  have := readExponent_length he
  omega

theorem readNumber_length {cs literal rest : List Char} (h : readNumber cs = some (literal, rest)) :
    rest.length < cs.length := by
  unfold readNumber at h
  split at h
  · obtain ⟨⟨_, _⟩, hm, he⟩ := Option.map_eq_some_iff.1 h
    cases he
    have := readMagnitude_length hm
    simp only [List.length_cons]
    omega
  · exact readMagnitude_length h

/-- What follows the first token is shorter than the whole. -/
theorem Token.next?_length {cs rest : List Char} {t : Token} (h : next? cs = some (t, rest)) :
    rest.length < cs.length := by
  unfold next? at h
  split at h
  case h_10 =>
    obtain ⟨⟨_, _⟩, ht, he⟩ := Option.map_eq_some_iff.1 h
    cases he
    have := readText_length ht
    simp only [List.length_cons]
    omega
  case h_11 =>
    obtain ⟨⟨_, _⟩, hn, he⟩ := Option.map_eq_some_iff.1 h
    cases he
    exact readNumber_length hn
  all_goals
    cases h
    simp only [List.length_cons]
    omega

end RemoteScreen.Json
