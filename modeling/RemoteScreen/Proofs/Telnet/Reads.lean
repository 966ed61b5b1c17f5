import RemoteScreen.Proofs.Telnet.Calls

/-! Decoding and the cuts between reads. Only one kind of cut matters: one behind an ESC that the
rest of an arrow follows. There the ESC is a key for itself, and the bracket behind it is
nothing. -/

namespace RemoteScreen.Telnet
namespace Decoder

variable {d : Decoder} {limit : Nat} {mode : Mode} {b letter : UInt8} {bytes : List UInt8}
  {key : NamedKey}

/-! ### Arrows -/

/-- The letters that make an arrow of `ESC [`. -/
def arrows : List (UInt8 × NamedKey) :=
  [(0x41, .up), (0x42, .down), (0x43, .right), (0x44, .left)]

/-- Whether the bytes behind an ESC begin with the rest of an arrow, as far as they go. -/
def ArrowTail : List UInt8 → Prop
  | [] => False
  | [c] => c = bracket
  | c :: letter :: _ => c = bracket ∧ letter ∈ arrows.map Prod.fst

instance : ∀ bytes, Decidable (ArrowTail bytes)
  | [] => inferInstanceAs (Decidable False)
  | [c] => inferInstanceAs (Decidable (c = bracket))
  | c :: letter :: _ =>
    inferInstanceAs (Decidable (c = bracket ∧ letter ∈ arrows.map Prod.fst))

theorem arrowKey?_of_mem (h : (letter, key) ∈ arrows) : arrowKey? letter = some (.named key) := by
  simp only [arrows, List.mem_cons, Prod.mk.injEq, List.not_mem_nil, or_false] at h
  rcases h with ⟨rfl, rfl⟩ | ⟨rfl, rfl⟩ | ⟨rfl, rfl⟩ | ⟨rfl, rfl⟩ <;> rfl

theorem exists_mem_arrows (h : letter ∈ arrows.map Prod.fst) : ∃ key, (letter, key) ∈ arrows := by
  obtain ⟨⟨_, key⟩, hkey, rfl⟩ := List.mem_map.mp h
  exact ⟨key, hkey⟩

theorem arrowKey?_eq_none (h : letter ∉ arrows.map Prod.fst) : arrowKey? letter = none := by
  simp only [arrows, List.map_cons, List.map_nil, List.mem_cons, List.not_mem_nil, or_false,
    not_or] at h
  obtain ⟨hup, hdown, hright, hleft⟩ := h
  simp only [arrowKey?, if_neg hup, if_neg hdown, if_neg hright, if_neg hleft]

/-- The letter of an arrow is a key for itself. -/
theorem readGround_of_mem (h : (letter, key) ∈ arrows) :
    readGround letter = (.ground, [.key (.letter (letter + 0x20))]) := by
  simp only [arrows, List.mem_cons, Prod.mk.injEq, List.not_mem_nil, or_false] at h
  rcases h with ⟨rfl, rfl⟩ | ⟨rfl, rfl⟩ | ⟨rfl, rfl⟩ | ⟨rfl, rfl⟩ <;> rfl

/-! ### Behind an ESC -/

theorem step_escape_of_ne (h : b ≠ bracket) : step limit .escape b = readAfterEscape b :=
  if_neg h

theorem step_arrow_of_none (h : arrowKey? b = none) : step limit .arrow b = readAfterEscape b := by
  simp only [step, h]

/-- Where a byte shows that the ESC was a key, reading goes on as from the ground. -/
theorem parse_cons_of_readAfterEscape (h : step limit mode b = readAfterEscape b) :
    parse ⟨limit, mode⟩ (b :: bytes) =
      prepend [.key (.named .escape)] (parse ⟨limit, .ground⟩ (b :: bytes)) := by
  rw [parse_cons, parse_cons, prepend_prepend, h]
  rfl

theorem parse_ground_bracket (limit : Nat) (bytes : List UInt8) :
    parse ⟨limit, .ground⟩ (bracket :: bytes) = parse ⟨limit, .ground⟩ bytes :=
  parse_cons limit .ground bracket bytes

theorem parse_escape_bracket (limit : Nat) (bytes : List UInt8) :
    parse ⟨limit, .escape⟩ (bracket :: bytes) = parse ⟨limit, .arrow⟩ bytes :=
  parse_cons limit .escape bracket bytes

/-- An ESC that begins no arrow is a key. -/
theorem parse_escape (limit : Nat) (h : ¬ArrowTail bytes) :
    parse ⟨limit, .escape⟩ bytes =
      prepend [.key (.named .escape)] (parse ⟨limit, .ground⟩ bytes) := by
  cases bytes with
  | nil => rfl
  | cons c bytes =>
    by_cases hc : c = bracket
    · subst hc
      cases bytes with
      | nil => exact absurd rfl h
      | cons letter rest =>
        have hletter : arrowKey? letter = none :=
          arrowKey?_eq_none fun hmem => h ⟨rfl, hmem⟩
        rw [parse_escape_bracket, parse_ground_bracket]
        exact parse_cons_of_readAfterEscape (step_arrow_of_none hletter)
    · exact parse_cons_of_readAfterEscape (step_escape_of_ne hc)

theorem parse_escape_arrow (limit : Nat) (h : (letter, key) ∈ arrows) (rest : List UInt8) :
    parse ⟨limit, .escape⟩ (bracket :: letter :: rest) =
      prepend [.key (.named key)] (parse ⟨limit, .ground⟩ rest) := by
  have hstep : step limit .arrow letter = (.ground, [.key (.named key)]) := by
    simp only [step, arrowKey?_of_mem h]
  rw [parse_escape_bracket, parse_cons, hstep]

theorem parse_ground_arrow (limit : Nat) (h : (letter, key) ∈ arrows) (rest : List UInt8) :
    parse ⟨limit, .ground⟩ (bracket :: letter :: rest) =
      prepend [.key (.letter (letter + 0x20))] (parse ⟨limit, .ground⟩ rest) := by
  have hstep : step limit .ground letter = (.ground, [.key (.letter (letter + 0x20))]) :=
    readGround_of_mem h
  rw [parse_ground_bracket, parse_cons, hstep]

/-- An ESC that begins an arrow is no key. -/
theorem parse_escape_ne (limit : Nat) (h : ArrowTail bytes) :
    parse ⟨limit, .escape⟩ bytes ≠
      prepend [.key (.named .escape)] (parse ⟨limit, .ground⟩ bytes) := by
  intro heq
  match bytes, h with
  | [_], rfl => cases heq
  | _ :: letter :: rest, ⟨rfl, hmem⟩ =>
    obtain ⟨key, hkey⟩ := exists_mem_arrows hmem
    rw [parse_escape_arrow limit hkey, parse_ground_arrow limit hkey, prepend_prepend] at heq
    have hlength := congrArg (fun answer => answer.1.length) heq
    simp [prepend] at hlength

/-! ### Two reads -/

/-- All that some reads answer, and the decoder after them. -/
def readAll (d : Decoder) (reads : List (List UInt8)) : List Event × Decoder :=
  ((d.events (reads.map .read)).flatten, d.after (reads.map .read))

theorem readAll_cons (d : Decoder) (bytes : List UInt8) (reads : List (List UInt8)) :
    d.readAll (bytes :: reads) = prepend (d.parse bytes).1 ((d.parse bytes).2.readAll reads) := rfl

theorem readAll_append (d : Decoder) (a b : List (List UInt8)) :
    d.readAll (a ++ b) = prepend (d.readAll a).1 ((d.readAll a).2.readAll b) := by
  induction a generalizing d with
  | nil => rfl
  | cons bytes a ih => rw [List.cons_append, readAll_cons, readAll_cons, ih, prepend_prepend]; rfl

theorem readAll_singleton (d : Decoder) (bytes : List UInt8) :
    d.readAll [bytes] = d.parse bytes := by
  have hnil : (d.parse bytes).2.readAll [] = ([], (d.parse bytes).2) := rfl
  rw [readAll_cons, hnil, prepend, List.append_nil]

theorem readAll_pair (d : Decoder) (a b : List UInt8) :
    d.readAll [a, b] = prepend (d.parse a).1 ((d.parse a).2.parse b) := by
  rw [readAll_cons, readAll_singleton]

/-- The machine waits behind an ESC after the bytes. -/
def WaitsAfter (d : Decoder) (bytes : List UInt8) : Prop :=
  (run d.limit d.mode bytes).1 = .escape

instance (d : Decoder) (bytes : List UInt8) : Decidable (d.WaitsAfter bytes) :=
  inferInstanceAs (Decidable (_ = _))

/-- A cut between `a` and `b` takes an arrow from its ESC. -/
def CutsArrow (d : Decoder) (a b : List UInt8) : Prop :=
  d.WaitsAfter a ∧ ArrowTail b

instance (d : Decoder) (a b : List UInt8) : Decidable (d.CutsArrow a b) :=
  inferInstanceAs (Decidable (_ ∧ _))

/-- Both ways of reading meet behind the ESC, if one waits at the cut. -/
theorem readAll_pair_of_waitsAfter {a : List UInt8} (h : d.WaitsAfter a) (b : List UInt8) :
    d.readAll [a, b] = prepend (run d.limit d.mode a).2.toList
        (prepend [.key (.named .escape)] (parse ⟨d.limit, .ground⟩ b)) ∧
      d.parse (a ++ b) = prepend (run d.limit d.mode a).2.toList
        (parse ⟨d.limit, .escape⟩ b) := by
  constructor
  · rw [readAll_pair, parse_of_eq_escape h, prepend_prepend]
  · rw [parse_append, h]

theorem readAll_pair_of_not_waitsAfter {a : List UInt8} (h : ¬d.WaitsAfter a) (b : List UInt8) :
    d.readAll [a, b] = d.parse (a ++ b) := by
  rw [readAll_pair, parse_of_ne_escape h, parse_append]

theorem readAll_pair_iff (d : Decoder) (a b : List UInt8) :
    d.readAll [a, b] = d.parse (a ++ b) ↔ ¬d.CutsArrow a b := by
  by_cases hwait : d.WaitsAfter a
  · obtain ⟨hsplit, hwhole⟩ := readAll_pair_of_waitsAfter hwait b
    rw [hsplit, hwhole, prepend_inj]
    constructor
    · rintro heq ⟨-, htail⟩
      exact parse_escape_ne d.limit htail heq.symm
    · intro hcut
      exact (parse_escape d.limit fun htail => hcut ⟨hwait, htail⟩).symm
  · exact iff_of_true (readAll_pair_of_not_waitsAfter hwait b) fun hcut => hwait hcut.1

/-! ### Many reads -/

theorem waitsAfter_cons (limit : Nat) (mode : Mode) (b : UInt8) (bytes : List UInt8) :
    WaitsAfter ⟨limit, mode⟩ (b :: bytes) ↔ WaitsAfter ⟨limit, (step limit mode b).1⟩ bytes := by
  simp only [WaitsAfter, run_cons]

theorem waitsAfter_append (d : Decoder) (a b : List UInt8) :
    d.WaitsAfter (a ++ b) ↔ WaitsAfter ⟨d.limit, (run d.limit d.mode a).1⟩ b := by
  simp only [WaitsAfter, run_append]

/-- An ESC that waits after a start on the ground waits after a start behind an ESC, too: at the
latest behind an arrow both machines are on the ground. -/
theorem waitsAfter_escape (h : WaitsAfter ⟨limit, .ground⟩ bytes) :
    WaitsAfter ⟨limit, .escape⟩ bytes := by
  cases bytes with
  | nil => cases h
  | cons c bytes =>
    by_cases hc : c = bracket
    · -- Only one of the two machines has a bracket behind it, so the next byte decides.
      subst hc
      cases bytes with
      | nil => cases h
      | cons letter rest =>
        replace h := (waitsAfter_cons limit .ground letter rest).mp h
        refine (waitsAfter_cons limit .arrow letter rest).mpr ?_
        by_cases hmem : letter ∈ arrows.map Prod.fst
        · obtain ⟨key, hkey⟩ := exists_mem_arrows hmem
          have hground : step limit .ground letter = _ := readGround_of_mem hkey
          simp only [step, arrowKey?_of_mem hkey]
          rwa [hground] at h
        · rwa [step_arrow_of_none (arrowKey?_eq_none hmem)]
    · rw [waitsAfter_cons] at h ⊢
      rwa [step_escape_of_ne hc]

/-- What waits in a later read waits there in one read of everything. -/
theorem waitsAfter_of_parse {a : List UInt8} (h : (d.parse a).2.WaitsAfter bytes) :
    d.WaitsAfter (a ++ bytes) := by
  rw [waitsAfter_append]
  by_cases hwait : d.WaitsAfter a
  · rw [parse_of_eq_escape hwait] at h
    rw [hwait]
    exact waitsAfter_escape h
  · rwa [parse_of_ne_escape hwait] at h

/-- No cut between two of the reads takes an arrow from its ESC. -/
def Uncut (d : Decoder) (reads : List (List UInt8)) : Prop :=
  ∀ n < reads.length, 0 < n → ¬d.CutsArrow (reads.take n).flatten (reads.drop n).flatten

instance (d : Decoder) (reads : List (List UInt8)) : Decidable (d.Uncut reads) :=
  inferInstanceAs (Decidable (∀ n < reads.length, 0 < n → _))

theorem Uncut.tail {reads : List (List UInt8)} (h : d.Uncut (bytes :: reads)) :
    (d.parse bytes).2.Uncut reads := by
  intro n hn _ hcut
  refine h (n + 1) (Nat.succ_lt_succ hn) n.succ_pos ⟨?_, hcut.2⟩
  exact waitsAfter_of_parse hcut.1

theorem readAll_of_uncut {reads : List (List UInt8)} (hne : reads ≠ []) (h : d.Uncut reads) :
    d.readAll reads = d.parse reads.flatten := by
  induction reads generalizing d with
  | nil => exact absurd rfl hne
  | cons bytes reads ih =>
    cases reads with
    | nil => rw [readAll_singleton, List.flatten_singleton]
    | cons more reads =>
      have hfirst : ¬d.CutsArrow bytes (more :: reads).flatten := by
        have hcut := h 1 (Nat.succ_lt_succ (Nat.succ_pos _)) Nat.one_pos
        rwa [List.take_succ_cons, List.take_zero, List.flatten_singleton] at hcut
      rw [readAll_cons, ih (List.cons_ne_nil _ _) h.tail, ← readAll_pair,
        (readAll_pair_iff d _ _).mpr hfirst]
      rfl

/-- Two reads answer what one read of both answers, and leave the same decoder, unless an ESC waits
between them and the rest of an arrow follows. Then the two reads report the escape key and drop
the bracket, where the one read reports the arrow, or keeps `ESC [`. So any number of reads that
take no arrow from its ESC are as good as one. -/
theorem readAll_eq_parse_unless_cutsArrow (d : Decoder) :
    (∀ a b, d.readAll [a, b] = d.parse (a ++ b) ↔ ¬d.CutsArrow a b) ∧
    (∀ a, d.WaitsAfter a → ∃ before : List Event,
      d.readAll [a, [bracket]] = (before ++ [.key (.named .escape)], ⟨d.limit, .ground⟩) ∧
      d.parse (a ++ [bracket]) = (before, ⟨d.limit, .arrow⟩) ∧
      ∀ letter key rest, (letter, key) ∈ arrows →
        d.readAll [a, bracket :: letter :: rest] =
          prepend (before ++ [.key (.named .escape), .key (.letter (letter + 0x20))])
            (parse ⟨d.limit, .ground⟩ rest) ∧
        d.parse (a ++ bracket :: letter :: rest) =
          prepend (before ++ [.key (.named key)]) (parse ⟨d.limit, .ground⟩ rest)) ∧
    ∀ reads : List (List UInt8), reads ≠ [] → d.Uncut reads →
      d.readAll reads = d.parse reads.flatten := by
  refine ⟨d.readAll_pair_iff, ?_, fun reads => readAll_of_uncut⟩
  intro a hwait
  refine ⟨(run d.limit d.mode a).2.toList, ?_, ?_, ?_⟩
  · rw [(readAll_pair_of_waitsAfter hwait _).1, parse_ground_bracket, prepend_prepend]
    simp [prepend, parse_nil, settle]
  · rw [(readAll_pair_of_waitsAfter hwait _).2, parse_escape_bracket]
    simp [prepend, parse_nil, settle]
  · intro letter key rest hkey
    obtain ⟨hsplit, hwhole⟩ := readAll_pair_of_waitsAfter hwait (bracket :: letter :: rest)
    constructor
    · rw [hsplit, parse_ground_arrow d.limit hkey, prepend_prepend, prepend_prepend]
      simp
    · rw [hwhole, parse_escape_arrow d.limit hkey, prepend_prepend]

/-- The letter a, an ESC that is a key, the arrow up, a window size and an ESC at the end; cut
behind the first ESC and its bracket, inside the arrow and inside every sequence of the protocol. -/
def cutReads : List (List UInt8) :=
  [[0x61, esc], [bracket], [0x31, esc, bracket], [0x41, iac], [sb, windowSize, 0, 80],
    [0, 24, iac], [se, esc]]

theorem readAll_eq_parse_of_cutReads :
    Uncut { limit := 4 } cutReads ∧
      readAll { limit := 4 } cutReads =
        ([.key (.letter 0x61), .key (.named .escape), .key (.digit 1), .key (.named .up),
          .windowSize 80 24, .key (.named .escape)], { limit := 4 }) ∧
      readAll { limit := 4 } cutReads = parse { limit := 4 } cutReads.flatten ∧
      WaitsAfter { limit := 4 } [0x61, esc] ∧ (0x42, .down) ∈ arrows ∧
      ∃ before : List Event,
        readAll { limit := 4 } [[0x61, esc], [bracket, 0x42]] =
          prepend (before ++ [.key (.named .escape), .key (.letter 0x62)])
            (parse { limit := 4 } []) ∧
        parse { limit := 4 } [0x61, esc, bracket, 0x42] =
          prepend (before ++ [.key (.named .down)]) (parse { limit := 4 } []) := by
  have huncut : Uncut { limit := 4 } cutReads := by decide +kernel
  have hwait : WaitsAfter { limit := 4 } [0x61, esc] := by decide +kernel
  have hmem : (0x42, NamedKey.down) ∈ arrows := by decide
  obtain ⟨-, hcut, hreads⟩ := readAll_eq_parse_unless_cutsArrow { limit := 4 }
  obtain ⟨before, -, -, harrow⟩ := hcut _ hwait
  exact ⟨huncut, by decide +kernel, hreads cutReads (List.cons_ne_nil _ _) huncut, hwait, hmem,
    before, harrow 0x42 .down [] hmem⟩

end Decoder
end RemoteScreen.Telnet
