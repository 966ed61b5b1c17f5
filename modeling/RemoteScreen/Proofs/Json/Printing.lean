import RemoteScreen.Json.Form
import RemoteScreen.Proofs.Json.Reading

/-! What printing gives to read. The document of a value whose numbers are naturals and whose texts are
characters spells the value's tokens, with nothing but blanks between them (`spells_print`), so reading
it gives the value again, in any layout that spaces with blanks. -/

namespace RemoteScreen.Json

variable {c : Char} {cs ds rest : List Char} {t : Token} {ts us : List Token} {v : Json}
  {layout : Layout}

/-! ### Numbers -/

/-- Nothing that a number in front of it could go on with. -/
def EndsNumber (cs : List Char) : Prop :=
  ∀ c ∈ cs.head?, ¬c.isDigit = true ∧ c ≠ '.' ∧ c ≠ 'e' ∧ c ≠ 'E'

theorem endsNumber_nil : EndsNumber [] :=
  fun _ hc => nomatch hc

theorem endsNumber_cons (h : ¬c.isDigit = true ∧ c ≠ '.' ∧ c ≠ 'e' ∧ c ≠ 'E') :
    EndsNumber (c :: cs) := by
  intro d hd
  cases hd
  exact h

theorem endsNumber_of_isBlank (h : isBlank c = true) : EndsNumber (c :: cs) := by
  simp only [isBlank, Bool.or_eq_true, decide_eq_true_eq] at h
  rcases h with ((rfl | rfl) | rfl) | rfl <;> exact endsNumber_cons (by decide)

theorem EndsNumber.append (h : EndsNumber cs) (hrest : EndsNumber rest) : EndsNumber (cs ++ rest) := by
  cases cs with
  | nil => exact hrest
  | cons c cs => exact endsNumber_cons (h c rfl)

theorem readDigits_append (hds : ds ≠ []) (hall : ds.all Char.isDigit = true)
    (hrest : EndsNumber rest) : readDigits (ds ++ rest) = some (ds, rest) := by
  have hdigits := List.all_eq_true.mp hall
  have hstop : rest.takeWhile Char.isDigit = [] ∧ rest.dropWhile Char.isDigit = rest := by
    cases rest with
    | nil => exact ⟨rfl, rfl⟩
    | cons c rest =>
      have hc := (hrest c rfl).1
      exact ⟨List.takeWhile_cons_of_neg hc, List.dropWhile_cons_of_neg hc⟩
  have htake : (ds ++ rest).takeWhile Char.isDigit = ds := by
    rw [List.takeWhile_append_of_pos hdigits, hstop.1, List.append_nil]
  have hdrop : (ds ++ rest).dropWhile Char.isDigit = rest := by
    rw [List.dropWhile_append_of_pos hdigits, hstop.2]
  unfold readDigits
  rw [htake, hdrop]
  cases ds with
  | nil => exact absurd rfl hds
  | cons d ds => rfl

theorem readFraction_of_endsNumber (h : EndsNumber rest) : readFraction rest = some ([], rest) := by
  unfold readFraction
  split
  next cs => exact absurd rfl (h '.' rfl).2.1
  next => rfl

theorem readExponent_of_endsNumber (h : EndsNumber rest) : readExponent rest = some ([], rest) := by
  cases rest with
  | nil => rfl
  | cons c rest =>
    obtain ⟨-, -, he, hE⟩ := h c rfl
    rw [readExponent, if_neg (not_or_intro he hE)]

/-- A natural is written with a digit, and if that is zero with no other. -/
theorem exists_chars (n : Nat) : ∃ c cs, Decimal.chars n = c :: cs ∧ c.isDigit = true ∧
    (c = '0' → cs = []) := by
  have hall := Decimal.all_isDigit_chars n
  cases hds : Decimal.digits n with
  | nil => exact absurd hds (Decimal.digits_ne_nil n)
  | cons d ds =>
    have hd : d < 10 := Decimal.lt_ten_of_mem_digits (n := n) (by simp [hds])
    have hchars : Decimal.chars n = Char.ofNat (0x30 + d) :: ds.map fun d => Char.ofNat (0x30 + d) := by
      rw [Decimal.chars, hds, List.map_cons]
    rw [hchars, List.all_cons, Bool.and_eq_true] at hall
    refine ⟨_, _, hchars, hall.1, fun hzero => ?_⟩
    have hinj : ∀ d < 10, Char.ofNat (0x30 + d) = '0' → d = 0 := by decide
    -- Only zero begins with the digit zero.
    have hn : n = 0 := Decidable.byContradiction fun hn =>
      Decimal.head?_digits_ne_zero hn (by rw [hds, hinj d hd hzero]; rfl)
    have hdigits : Decimal.digits 0 = [0] := by rw [Decimal.digits, if_pos (by decide)]
    rw [hn, hdigits] at hds
    cases hds
    rfl

theorem readMagnitude_chars (n : Nat) (h : EndsNumber rest) :
    readMagnitude (Decimal.chars n ++ rest) = some (Decimal.chars n, rest) := by
  obtain ⟨c, cs, hchars, -, hzero⟩ := exists_chars n
  have hwhole : readWhole (Decimal.chars n ++ rest) = some (Decimal.chars n, rest) := by
    unfold readWhole
    split
    next left heq =>
      rw [hchars] at heq ⊢
      cases heq
      rw [hzero rfl]
      rfl
    next => exact readDigits_append (by rw [hchars]; simp) (Decimal.all_isDigit_chars n) h
  rw [readMagnitude, hwhole]
  simp [readFraction_of_endsNumber h, readExponent_of_endsNumber h]

theorem readNumber_chars (n : Nat) (h : EndsNumber rest) :
    readNumber (Decimal.chars n ++ rest) = some (Decimal.chars n, rest) := by
  obtain ⟨c, cs, hchars, hdigit, -⟩ := exists_chars n
  unfold readNumber
  split
  next left heq =>
    rw [hchars] at heq
    cases heq
    exact absurd hdigit (by decide)
  next => exact readMagnitude_chars n h

/-- What begins with a digit is read as a number. -/
theorem next?_of_isDigit (h : c.isDigit = true) : Token.next? (c :: cs) =
    (readNumber (c :: cs)).map fun (literal, left) => (.number literal, left) := by
  unfold Token.next?
  split
  case h_11 => rfl
  all_goals
    rename_i heq
    cases heq
    exact absurd h (by decide)

/-! ### Texts -/

/-- What writes one piece of a text, and this piece the character `c`. -/
def Writes (cs : List Char) (c : Char) : Prop :=
  ∃ p, (∀ rest, readPieces (cs ++ rest) =
      (readPieces rest).map fun (pieces, left) => (p :: pieces, left)) ∧
    ∀ pieces, joinPieces (p :: pieces) = (joinPieces pieces).map (c :: ·)

theorem writes_letter {letter : Char} (hu : letter ≠ 'u') (h : escaped? letter = some c) :
    Writes ['\\', letter] c := by
  refine ⟨.char c, fun rest => ?_, fun pieces => rfl⟩
  have hread : readPieces ('\\' :: letter :: rest) = do
      let c ← escaped? letter
      let (pieces, left) ← readPieces rest
      return (.char c :: pieces, left) := by
    rw [readPieces]
    rintro a b c d rest rfl
    exact absurd rfl hu
  show readPieces ('\\' :: letter :: rest) = _
  rw [hread, h]
  cases readPieces rest <;> rfl

theorem writes_plain (hquote : c ≠ '"') (hslash : c ≠ '\\') (hcontrol : ¬c < ' ') : Writes [c] c := by
  refine ⟨.char c, fun rest => ?_, fun pieces => rfl⟩
  have hread : readPieces (c :: rest) =
      if c = '\\' ∨ c < ' ' then none
      else do
        let (pieces, left) ← readPieces rest
        return (.char c :: pieces, left) := by
    rw [readPieces]
    · exact hquote
    · rintro a b d e rest' rfl -
      exact hslash rfl
    · rintro d rest' rfl -
      exact hslash rfl
  show readPieces (c :: rest) = _
  rw [hread, if_neg (not_or_intro hslash hcontrol)]
  cases readPieces rest <;> rfl

theorem writes_unit {n : Nat} (h : n < 0x20) :
    Writes ['\\', 'u', '0', '0', hexDigit (n / 16), hexDigit (n % 16)] (Char.ofNat n) := by
  have hunit : ∀ n < 0x20, unitOfHex? '0' '0' (hexDigit (n / 16)) (hexDigit (n % 16)) = some n := by
    decide
  have hvalid : n.isValidChar := .inl (by omega)
  refine ⟨.unit n, fun rest => ?_, fun pieces => ?_⟩
  · show readPieces ('\\' :: 'u' :: '0' :: '0' :: hexDigit (n / 16) :: hexDigit (n % 16) :: rest) = _
    rw [readPieces, hunit n h]
    cases readPieces rest <;> rfl
  · rw [joinPieces.eq_def]
    exact if_pos hvalid

theorem writes_quoteChar (c : Char) : Writes (quoteChar c) c := by
  unfold quoteChar
  split
  case h_8 hquote hslash _ _ _ _ _ =>
    split
    next hcontrol =>
      have hn : c.toNat < 0x20 := hcontrol
      have hunit := writes_unit hn
      rwa [Char.ofNat_toNat] at hunit
    next hcontrol => exact writes_plain hquote hslash hcontrol
  all_goals exact writes_letter (by decide) rfl

theorem exists_pieces (t rest : List Char) : ∃ pieces,
    readPieces (t.flatMap quoteChar ++ '"' :: rest) = some (pieces, rest) ∧
    joinPieces pieces = some t := by
  induction t with
  | nil => exact ⟨[], rfl, rfl⟩
  | cons c t ih =>
    obtain ⟨p, hread, hjoin⟩ := writes_quoteChar c
    obtain ⟨pieces, hpieces, ht⟩ := ih
    refine ⟨p :: pieces, ?_, ?_⟩
    · rw [List.flatMap_cons, List.append_assoc, hread, hpieces]
      rfl
    · rw [hjoin, ht]
      rfl

/-- A text is read back from its quotes. -/
theorem readText_quote (t : String) (rest : List Char) :
    readText (t.toList.flatMap quoteChar ++ '"' :: rest) = some (some t, rest) := by
  obtain ⟨pieces, hpieces, ht⟩ := exists_pieces t.toList rest
  rw [readText, hpieces]
  simp [ht]

/-! ### Tokens in a row -/

/-- Characters that give the tokens `ts`, whatever follows them that no number goes on with. -/
def Spells (cs : List Char) (ts : List Token) : Prop :=
  ∀ rest, EndsNumber rest → lex? (cs ++ rest) = (lex? rest).map (ts ++ ·)

theorem spells_token (hblank : ¬isBlank c = true)
    (h : ∀ rest, EndsNumber rest → Token.next? (c :: cs ++ rest) = some (t, rest)) :
    Spells (c :: cs) [t] := by
  intro rest hrest
  rw [List.cons_append, lex?_cons hblank, ← List.cons_append, h rest hrest]
  rfl

theorem spells_nil : Spells [] [] :=
  fun rest _ => (congrFun Option.map_id (lex? rest)).symm

theorem Spells.append (h : Spells cs ts) (h' : Spells ds us) (hds : EndsNumber ds) :
    Spells (cs ++ ds) (ts ++ us) := by
  intro rest hrest
  rw [List.append_assoc, h _ (hds.append hrest), h' rest hrest, Option.map_map]
  simp only [Function.comp_def, List.append_assoc]

/-- A token of one character ends there. -/
theorem Spells.cons (hblank : ¬isBlank c = true) (hnext : ∀ rest, Token.next? (c :: rest) = some (t, rest))
    (h : Spells cs ts) : Spells (c :: cs) (t :: ts) := by
  intro rest hrest
  rw [List.cons_append, lex?_cons hblank, hnext, Option.bind_some, h rest hrest, Option.map_map]
  rfl

theorem Spells.blank_append (hblank : cs.all isBlank = true) (h : Spells ds ts) :
    Spells (cs ++ ds) ts := by
  induction cs with
  | nil => exact h
  | cons c cs ih =>
    rw [List.all_cons, Bool.and_eq_true] at hblank
    intro rest hrest
    rw [List.cons_append, List.cons_append, lex?_blank hblank.1]
    exact ih hblank.2 rest hrest

theorem spells_number (n : Nat) : Spells (Decimal.chars n) [.number (Decimal.chars n)] := by
  obtain ⟨c, cs, hchars, hdigit, -⟩ := exists_chars n
  have hblank : ¬isBlank c = true := fun hc =>
    have hends : EndsNumber [c] := endsNumber_of_isBlank hc
    (hends c rfl).1 hdigit
  rw [hchars]
  refine spells_token hblank fun rest hrest => ?_
  rw [List.cons_append, next?_of_isDigit hdigit, ← List.cons_append, ← hchars,
    readNumber_chars n hrest]
  rfl

theorem spells_quote (t : String) : Spells (quote (some t)) [.text (some t)] := by
  refine spells_token (by decide) fun rest _ => ?_
  show Token.next? ('"' :: (t.toList.flatMap quoteChar ++ ['"'] ++ rest)) = _
  rw [List.append_assoc]
  show (readText (t.toList.flatMap quoteChar ++ '"' :: rest)).map _ = _
  rw [readText_quote]
  rfl

/-! ### Documents -/

/-- Spacing with nothing but blanks. -/
structure Layout.Blank (layout : Layout) : Prop where
  lineBreak : ∀ depth, (layout.lineBreak depth).all isBlank = true
  colon : ∃ cs, layout.colon = ':' :: cs ∧ cs.all isBlank = true

theorem blank_compact : Layout.Blank .compact where
  lineBreak _ := rfl
  colon := ⟨[], rfl, rfl⟩

theorem blank_lines : Layout.Blank .lines where
  lineBreak depth := by simp [Layout.lines, isBlank]
  colon := ⟨[' '], rfl, rfl⟩

/-- Values whose numbers are naturals and whose texts are characters. -/
inductive Plain : Json → Prop
  | null : Plain .null
  | bool (b : Bool) : Plain (.bool b)
  | nat (n : Nat) : Plain (ofNat n)
  | string (s : String) : Plain (ofString s)
  | array {items : List Json} (h : ∀ v ∈ items, Plain v) : Plain (.array items)
  | object {members : List (Text × Json)} (hname : ∀ m ∈ members, m.1.isSome = true)
    (h : ∀ m ∈ members, Plain m.2) : Plain (.object members)

theorem endsNumber_of_blank (h : cs.all isBlank = true) (hds : EndsNumber ds) :
    EndsNumber (cs ++ ds) := by
  cases cs with
  | nil => exact hds
  | cons c cs =>
    rw [List.all_cons, Bool.and_eq_true] at h
    exact endsNumber_of_isBlank h.1

/-- A line break and the bracket that ends an array or object. -/
theorem spells_end (hl : layout.Blank) (depth : Nat) (hblank : ¬isBlank c = true)
    (hnext : ∀ rest, Token.next? (c :: rest) = some (t, rest)) (hends : EndsNumber [c]) :
    Spells (layout.lineBreak depth ++ [c]) [t] ∧ EndsNumber (layout.lineBreak depth ++ [c]) :=
  ⟨(spells_nil.cons hblank hnext).blank_append (hl.lineBreak depth),
    endsNumber_of_blank (hl.lineBreak depth) hends⟩

theorem endsNumber_printItems (depth : Nat) (items : List Json) (hds : EndsNumber ds) :
    EndsNumber (printItems layout depth items ++ ds) := by
  cases items with
  | nil => exact hds
  | cons v items => exact endsNumber_cons (by decide)

theorem endsNumber_printMembers (depth : Nat) (members : List (Text × Json)) (hds : EndsNumber ds) :
    EndsNumber (printMembers layout depth members ++ ds) := by
  cases members with
  | nil => exact hds
  | cons m members => exact endsNumber_cons (by decide)

theorem spells_printItems (hl : layout.Blank) {depth : Nat} {items : List Json}
    (h : ∀ v ∈ items, Spells (print layout depth v) v.tokens) (hds : EndsNumber ds)
    (hus : Spells ds us) : Spells (printItems layout depth items ++ ds) (itemTokens items ++ us) := by
  induction items with
  | nil => exact hus
  | cons v items ih =>
    obtain ⟨hv, hitems⟩ := List.forall_mem_cons.mp h
    -- An item may be a number, so what follows it must not go on with one.
    simp only [printItems, itemTokens, List.cons_append, List.append_assoc]
    refine .cons (by decide) (fun _ => rfl) (.blank_append (hl.lineBreak depth) ?_)
    exact hv.append (ih hitems) (endsNumber_printItems depth items hds)

theorem spells_array (hl : layout.Blank) (depth : Nat) {items : List Json}
    (h : ∀ v ∈ items, Spells (print layout (depth + 1) v) v.tokens) :
    Spells (print layout depth (.array items)) (tokens (.array items)) := by
  cases items with
  | nil => exact .cons (by decide) (fun _ => rfl) (spells_nil.cons (by decide) fun _ => rfl)
  | cons v items =>
    obtain ⟨hv, hitems⟩ := List.forall_mem_cons.mp h
    obtain ⟨hend, hstop⟩ := spells_end hl depth (c := ']') (by decide) (fun _ => rfl)
      (endsNumber_cons (by decide))
    simp only [print, tokens, List.cons_append, List.append_assoc]
    refine .cons (by decide) (fun _ => rfl) (.blank_append (hl.lineBreak _) ?_)
    exact hv.append (spells_printItems hl hitems hstop hend) (endsNumber_printItems _ items hstop)

/-- A name, its colon and its value. -/
theorem spells_member (hl : layout.Blank) (name : String) (hcs : Spells cs ts) :
    Spells (quote (some name) ++ (layout.colon ++ cs)) (.text (some name) :: .colon :: ts) := by
  obtain ⟨blanks, hcolon, hblank⟩ := hl.colon
  rw [hcolon]
  refine (spells_quote name).append ?_ (endsNumber_cons (by decide))
  exact .cons (by decide) (fun _ => rfl) (hcs.blank_append hblank)

theorem spells_printMembers (hl : layout.Blank) {depth : Nat} {members : List (Text × Json)}
    (hname : ∀ m ∈ members, m.1.isSome = true)
    (h : ∀ m ∈ members, Spells (print layout depth m.2) m.2.tokens) (hds : EndsNumber ds)
    (hus : Spells ds us) :
    Spells (printMembers layout depth members ++ ds) (memberTokens members ++ us) := by
  induction members with
  | nil => exact hus
  | cons m members ih =>
    obtain ⟨hm, hmembers⟩ := List.forall_mem_cons.mp h
    obtain ⟨hsome, hnames⟩ := List.forall_mem_cons.mp hname
    obtain ⟨name, v⟩ := m
    obtain ⟨name, rfl⟩ := Option.isSome_iff_exists.mp hsome
    simp only [printMembers, memberTokens, List.cons_append, List.append_assoc]
    refine .cons (by decide) (fun _ => rfl) (.blank_append (hl.lineBreak depth) ?_)
    refine spells_member hl name ?_
    exact hm.append (ih hnames hmembers) (endsNumber_printMembers depth members hds)

theorem spells_object (hl : layout.Blank) (depth : Nat) {members : List (Text × Json)}
    (hname : ∀ m ∈ members, m.1.isSome = true)
    (h : ∀ m ∈ members, Spells (print layout (depth + 1) m.2) m.2.tokens) :
    Spells (print layout depth (.object members)) (tokens (.object members)) := by
  cases members with
  | nil => exact .cons (by decide) (fun _ => rfl) (spells_nil.cons (by decide) fun _ => rfl)
  | cons m members =>
    obtain ⟨hm, hmembers⟩ := List.forall_mem_cons.mp h
    obtain ⟨hsome, hnames⟩ := List.forall_mem_cons.mp hname
    obtain ⟨name, v⟩ := m
    obtain ⟨name, rfl⟩ := Option.isSome_iff_exists.mp hsome
    obtain ⟨hend, hstop⟩ := spells_end hl depth (c := '}') (by decide) (fun _ => rfl)
      (endsNumber_cons (by decide))
    simp only [print, tokens, List.cons_append, List.append_assoc]
    refine .cons (by decide) (fun _ => rfl) (.blank_append (hl.lineBreak _) ?_)
    refine spells_member hl name ?_
    exact hm.append (spells_printMembers hl hnames hmembers hstop hend)
      (endsNumber_printMembers _ members hstop)

theorem spells_print (hl : layout.Blank) (h : Plain v) (depth : Nat) :
    Spells (print layout depth v) v.tokens := by
  induction h generalizing depth with
  | null => exact spells_token (by decide) fun _ _ => rfl
  | bool b => cases b <;> exact spells_token (by decide) fun _ _ => rfl
  | nat n => exact spells_number n
  | string s => exact spells_quote s
  | array _ ih => exact spells_array hl depth fun v hv => ih v hv _
  | object hname _ ih => exact spells_object hl depth hname fun m hm => ih m hm _

theorem read?_print (hl : layout.Blank) (h : Plain v) :
    read? (String.ofList (print layout 0 v)) = some v := by
  have hspells := spells_print hl h 0 [] endsNumber_nil
  rw [read?_eq_some_iff, String.toList_ofList]
  rwa [List.append_nil, lex?_nil, Option.map_some, List.append_nil] at hspells

theorem read?_compact (h : Plain v) : read? v.compact = some v :=
  read?_print blank_compact h

theorem read?_pretty (h : Plain v) : read? v.pretty = some v :=
  read?_print blank_lines h

end RemoteScreen.Json
