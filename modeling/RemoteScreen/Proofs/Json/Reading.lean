import RemoteScreen.Json.Reader

/-! What documents say. A value has tokens (`tokens`), and a document is read as that value exactly if
these are its own tokens (`read?_eq_some_iff`). The machine takes them one after another: what it has
taken so far is all in its stack and phase (`Machine.tokens_step`), and from the tokens of a value it
gets the value (`Machine.steps_tokens`). -/

namespace RemoteScreen.Json

variable {stack : List Frame} {phase : Phase} {t : Token} {m m' : Machine}

/-! ### The tokens of a document -/

/-- The tokens of a document, unless something in it is none. -/
def lex? (cs : List Char) : Option (List Token) :=
  match cs with
  | [] => some []
  | c :: rest =>
    if isBlank c then lex? rest
    else match _h : Token.next? (c :: rest) with
      | none => none
      | some (t, left) => (lex? left).map (t :: ·)
termination_by cs.length
decreasing_by
  · simp
  · exact Token.next?_length (by assumption)

theorem lex?_nil : lex? [] = some [] := by
  rw [lex?]

theorem lex?_blank {c : Char} (h : isBlank c = true) (cs : List Char) :
    lex? (c :: cs) = lex? cs := by
  rw [lex?, if_pos h]

theorem lex?_cons {c : Char} (h : ¬isBlank c = true) (cs : List Char) :
    lex? (c :: cs) = (Token.next? (c :: cs)).bind fun next => (lex? next.2).map (next.1 :: ·) := by
  rw [lex?, if_neg h]
  split
  next hnone => rw [hnone]; rfl
  next t left hsome => rw [hsome]; rfl

theorem length_lex? {cs : List Char} {ts : List Token} (h : lex? cs = some ts) :
    ts.length ≤ cs.length := by
  fun_induction lex? cs generalizing ts with
  | case1 => cases h; exact Nat.le_refl _
  | case2 c rest _ ih => exact Nat.le_succ_of_le (ih h)
  | case3 => cases h
  | case4 c rest _ t left hnext ih =>
    obtain ⟨us, hus, rfl⟩ := Option.map_eq_some_iff.mp h
    exact Nat.lt_of_le_of_lt (ih hus) (Token.next?_length hnext)

namespace Machine

/-- Takes tokens one after another. -/
def steps (m : Machine) (ts : List Token) : Option Machine :=
  ts.foldlM step m

theorem steps_cons (m : Machine) (t : Token) (ts : List Token) :
    m.steps (t :: ts) = (m.step t).bind (·.steps ts) := rfl

theorem steps_append (m : Machine) (ts us : List Token) :
    m.steps (ts ++ us) = (m.steps ts).bind (·.steps us) :=
  List.foldlM_append

/-- Reading is taking the tokens. -/
theorem run_eq (m : Machine) (cs : List Char) :
    m.run cs = (lex? cs).bind fun ts => (m.steps ts).bind result? := by
  fun_induction run m cs with
  | case1 m => rw [lex?_nil]; rfl
  | case2 m c rest hblank ih => rw [lex?_blank hblank, ih]
  | case3 m c rest hblank hnone => rw [lex?_cons hblank, hnone]; rfl
  | case4 m c rest hblank t left hnext hstep =>
    rw [lex?_cons hblank, hnext, Option.bind_some, Option.bind_map]
    simp only [Function.comp_def, steps_cons, hstep, Option.bind_none]
    cases lex? left <;> rfl
  | case5 m c rest hblank t left hnext m' hstep ih =>
    rw [lex?_cons hblank, hnext, Option.bind_some, Option.bind_map, ih]
    simp only [Function.comp_def, steps_cons, hstep, Option.bind_some]

end Machine

/-! ### The tokens of a value -/

mutual

/-- The tokens that say what a value is. -/
def tokens : Json → List Token
  | .null => [.null]
  | .bool b => [.bool b]
  | .number literal => [.number literal]
  | .text t => [.text t]
  | .array [] => [.openBracket, .closeBracket]
  | .array (v :: items) => .openBracket :: tokens v ++ itemTokens items ++ [.closeBracket]
  | .object [] => [.openBrace, .closeBrace]
  | .object ((name, v) :: members) =>
    .openBrace :: .text name :: .colon :: tokens v ++ memberTokens members ++ [.closeBrace]

/-- The tokens of the items of an array after the first one. -/
def itemTokens : List Json → List Token
  | [] => []
  | v :: items => .comma :: tokens v ++ itemTokens items

/-- The tokens of the members of an object after the first one. -/
def memberTokens : List (Text × Json) → List Token
  | [] => []
  | (name, v) :: members => .comma :: .text name :: .colon :: tokens v ++ memberTokens members

end

namespace Machine

/-- Where a value may come, every token but the end of an array begins one. -/
theorem steps_of_takesValue (h : phase = .value ∨ phase = .firstItem) (ht : t ≠ .closeBracket)
    (ts : List Token) : steps ⟨stack, phase⟩ (t :: ts) = (beginValue stack t).bind (·.steps ts) := by
  have hstep : step ⟨stack, phase⟩ t = beginValue stack t := by
    rcases h with rfl | rfl
    · rfl
    · unfold step
      split <;> simp_all
  rw [steps_cons, hstep]

mutual

/-- The tokens of a value give the value, whatever is open around it. Within an array or object, each
of the lists below takes one more value over to those that are done. -/
theorem steps_tokens (v : Json) (stack : List Frame) {phase : Phase}
    (h : phase = .value ∨ phase = .firstItem) :
    steps ⟨stack, phase⟩ v.tokens = some ⟨stack, .after v⟩ := by
  match v with
  | .null | .bool _ | .number _ | .text _ | .array [] | .object [] =>
    rw [tokens, steps_of_takesValue h (by simp)]
    rfl
  | .array (w :: items) =>
    rw [tokens, List.cons_append, List.cons_append, steps_of_takesValue h (by simp)]
    show steps ⟨.array [] :: stack, .firstItem⟩ _ = _
    rw [List.append_assoc, steps_append, steps_tokens w _ (.inr rfl), Option.bind_some,
      steps_itemTokens items w [] stack]
    rfl
  | .object ((name, w) :: members) =>
    rw [tokens, List.cons_append, List.cons_append, steps_of_takesValue h (by simp)]
    show steps ⟨.member [] name :: stack, .value⟩ (w.tokens ++ memberTokens members ++ _) = _
    rw [List.append_assoc, steps_append, steps_tokens w _ (.inl rfl), Option.bind_some,
      steps_memberTokens members name w [] stack]
    rfl

theorem steps_itemTokens (items : List Json) (v : Json) (done : List Json) (stack : List Frame) :
    steps ⟨.array done :: stack, .after v⟩ (itemTokens items ++ [.closeBracket]) =
      some ⟨stack, .after (.array (done.reverse ++ v :: items))⟩ := by
  match items with
  | [] =>
    show some (⟨stack, .after (.array (v :: done).reverse)⟩ : Machine) = _
    rw [List.reverse_cons]
  | w :: items =>
    rw [itemTokens, List.cons_append, List.cons_append]
    show steps ⟨.array (v :: done) :: stack, .value⟩ (w.tokens ++ itemTokens items ++ _) = _
    rw [List.append_assoc, steps_append, steps_tokens w _ (.inl rfl), Option.bind_some,
      steps_itemTokens items w (v :: done) stack, List.reverse_cons, List.append_assoc]
    rfl

theorem steps_memberTokens (members : List (Text × Json)) (name : Text) (v : Json)
    (done : List (Text × Json)) (stack : List Frame) :
    steps ⟨.member done name :: stack, .after v⟩ (memberTokens members ++ [.closeBrace]) =
      some ⟨stack, .after (.object (done.reverse ++ (name, v) :: members))⟩ := by
  match members with
  | [] =>
    show some (⟨stack, .after (.object ((name, v) :: done).reverse)⟩ : Machine) = _
    rw [List.reverse_cons]
  | (next, w) :: members =>
    rw [memberTokens, List.cons_append, List.cons_append]
    show steps ⟨.member ((name, v) :: done) next :: stack, .value⟩
      (w.tokens ++ memberTokens members ++ _) = _
    rw [List.append_assoc, steps_append, steps_tokens w _ (.inl rfl), Option.bind_some,
      steps_memberTokens members next w ((name, v) :: done) stack, List.reverse_cons,
      List.append_assoc]
    rfl

end

end Machine

/-! ### What the machine has taken -/

/-- The tokens of a member: its name, a colon and its value. -/
def memberOf (m : Text × Json) : List Token :=
  .text m.1 :: .colon :: m.2.tokens

theorem itemTokens_eq (items : List Json) :
    itemTokens items = items.flatMap fun v => .comma :: v.tokens := by
  induction items with
  | nil => rw [itemTokens, List.flatMap_nil]
  | cons v items ih => rw [itemTokens, ih, List.flatMap_cons]

theorem memberTokens_eq (members : List (Text × Json)) :
    memberTokens members = members.flatMap fun m => .comma :: memberOf m := by
  induction members with
  | nil => rw [memberTokens, List.flatMap_nil]
  | cons m members ih => rw [memberTokens, ih, List.flatMap_cons]; rfl

/-- A comma in front of each part but the first stands behind each part but the last. -/
theorem flatMap_comma {α : Type} (f : α → List Token) (x y : α) (xs : List α) :
    f x ++ (xs ++ [y]).flatMap (fun z => .comma :: f z) =
      (x :: xs).flatMap (fun z => f z ++ [.comma]) ++ f y := by
  induction xs generalizing x with
  | nil => simp
  | cons z xs ih =>
    rw [List.cons_append, List.flatMap_cons, List.cons_append, ih z, List.flatMap_cons (x := x),
      List.append_assoc, List.append_assoc]
    rfl

theorem tokens_array_concat (items : List Json) (v : Json) : tokens (.array (items ++ [v])) =
    .openBracket :: items.flatMap (fun w => w.tokens ++ [.comma]) ++ v.tokens ++ [.closeBracket] := by
  cases items with
  | nil => simp [tokens, itemTokens]
  | cons w items =>
    rw [List.cons_append, tokens, itemTokens_eq, List.cons_append, flatMap_comma]
    rfl

theorem tokens_object_concat (members : List (Text × Json)) (m : Text × Json) :
    tokens (.object (members ++ [m])) =
      .openBrace :: members.flatMap (fun w => memberOf w ++ [.comma]) ++ memberOf m ++
        [.closeBrace] := by
  cases members with
  | nil => simp [tokens, memberTokens, memberOf]
  | cons w members =>
    rw [List.cons_append, tokens, memberTokens_eq]
    show .openBrace :: (memberOf w ++ _) ++ _ = _
    rw [flatMap_comma]
    rfl

/-- What has been taken of an array or object that is open. -/
def Frame.tokens : Frame → List Token
  | .array items => .openBracket :: items.reverse.flatMap fun v => v.tokens ++ [.comma]
  | .object members => .openBrace :: members.reverse.flatMap fun m => memberOf m ++ [.comma]
  | .member members name =>
    .openBrace :: (members.reverse.flatMap fun m => memberOf m ++ [.comma]) ++ [.text name, .colon]

/-- What has been taken of a name or value that ends here. -/
def Phase.tokens : Phase → List Token
  | .colon t => [.text t]
  | .after v => v.tokens
  | _ => []

namespace Machine

/-- All tokens that the machine has taken. -/
def tokens (m : Machine) : List Token :=
  m.stack.reverse.flatMap Frame.tokens ++ m.phase.tokens

/-- What may be the first in an array or object is in one that holds nothing yet. -/
def Proper (m : Machine) : Prop :=
  match m.phase with
  | .firstItem => ∃ stack, m.stack = .array [] :: stack
  | .firstName => ∃ stack, m.stack = .object [] :: stack
  | _ => True

theorem beginValue_spec (h : beginValue stack t = some m) :
    m.Proper ∧ m.tokens = stack.reverse.flatMap Frame.tokens ++ [t] := by
  cases t with
  | null | bool _ | number _ | text _ =>
    cases h
    exact ⟨trivial, by simp only [tokens, Phase.tokens, Json.tokens]⟩
  | openBracket | openBrace =>
    cases h
    exact ⟨⟨_, rfl⟩, by simp [tokens, Frame.tokens, Phase.tokens]⟩
  | closeBracket | closeBrace | comma | colon => cases h

theorem afterValue_spec {v : Json} (h : afterValue v stack t = some m) :
    m.Proper ∧ m.tokens = stack.reverse.flatMap Frame.tokens ++ v.tokens ++ [t] := by
  unfold afterValue at h
  split at h
  · cases h
    exact ⟨trivial, by simp [tokens, Frame.tokens, Phase.tokens]⟩
  · cases h
    exact ⟨trivial, by simp [tokens, Frame.tokens, Phase.tokens, tokens_array_concat]⟩
  · cases h
    exact ⟨trivial, by simp [tokens, Frame.tokens, Phase.tokens, memberOf]⟩
  · cases h
    exact ⟨trivial, by simp [tokens, Frame.tokens, Phase.tokens, memberOf, tokens_object_concat]⟩
  · cases h

/-- The machine forgets nothing: with each token it takes, what it has taken grows by that token. -/
theorem tokens_step (hm : m.Proper) (h : m.step t = some m') :
    m'.Proper ∧ m'.tokens = m.tokens ++ [t] := by
  obtain ⟨stack, phase⟩ := m
  unfold step at h
  dsimp only at h
  split at h
  · simpa [tokens, Phase.tokens] using beginValue_spec h
  · -- What ends at its first item or name holds nothing yet, so its brackets are all that was taken.
    cases h
    obtain ⟨_, hstack⟩ := hm
    cases hstack
    exact ⟨trivial, by simp [tokens, Frame.tokens, Phase.tokens, Json.tokens]⟩
  · simpa [tokens, Phase.tokens] using beginValue_spec h
  · cases h
    obtain ⟨_, hstack⟩ := hm
    cases hstack
    exact ⟨trivial, by simp [tokens, Frame.tokens, Phase.tokens, Json.tokens]⟩
  · cases h
    exact ⟨trivial, by simp [tokens, Phase.tokens]⟩
  · cases h
    exact ⟨trivial, by simp [tokens, Phase.tokens]⟩
  · cases h
    exact ⟨trivial, by simp [tokens, Frame.tokens, Phase.tokens]⟩
  · exact afterValue_spec h
  · cases h

theorem tokens_steps {ts : List Token} (hm : m.Proper) (h : m.steps ts = some m') :
    m'.tokens = m.tokens ++ ts := by
  induction ts generalizing m with
  | nil =>
    cases h
    rw [List.append_nil]
  | cons t ts ih =>
    obtain ⟨u, hu, hrest⟩ := Option.bind_eq_some_iff.mp h
    obtain ⟨hproper, htokens⟩ := tokens_step hm hu
    rw [ih hproper hrest, htokens, List.append_assoc]
    rfl

end Machine

/-- A document is read as a value exactly if its tokens are those of the value. -/
theorem read?_eq_some_iff {document : String} {v : Json} :
    read? document = some v ↔ lex? document.toList = some v.tokens := by
  rw [read?, Machine.run_eq]
  constructor
  · intro h
    obtain ⟨ts, hts, hrun⟩ := Option.bind_eq_some_iff.mp h
    obtain ⟨m, hm, hresult⟩ := Option.bind_eq_some_iff.mp hrun
    have hstart : Machine.start.Proper := trivial
    have htokens := Machine.tokens_steps hstart hm
    match m, hresult with
    | ⟨[], .after w⟩, hresult =>
      cases hresult
      rw [hts]
      exact congrArg some htokens.symm
  · intro h
    rw [h, Option.bind_some, Machine.start, Machine.steps_tokens v [] (.inl rfl)]
    rfl

/-! ### Sizes -/

/-- The values that an array or object holds. -/
def children : Json → List Json
  | .array items => items
  | .object members => members.map (·.2)
  | _ => []

theorem tokens_ne_nil (v : Json) : v.tokens ≠ [] := by
  unfold tokens
  split <;> simp

theorem length_le_flatMap {α β : Type} {x : α} {xs : List α} (h : x ∈ xs) (f : α → List β) :
    (f x).length ≤ (xs.flatMap f).length :=
  (List.sublist_flatten_of_mem (List.mem_map_of_mem h)).length_le

theorem length_tokens_child {v w : Json} (h : w ∈ v.children) :
    w.tokens.length ≤ v.tokens.length := by
  match v, h with
  | .array (u :: items), h =>
    have htokens : (tokens (.array (u :: items))).length =
        u.tokens.length + (itemTokens items).length + 2 := by
      simp only [tokens, List.length_append, List.length_cons, List.length_nil]
      omega
    rcases List.mem_cons.mp h with rfl | h
    · omega
    · have hle := length_le_flatMap h fun v => Token.comma :: v.tokens
      rw [← itemTokens_eq, List.length_cons] at hle
      omega
  | .object ((name, u) :: members), h =>
    have htokens : (tokens (.object ((name, u) :: members))).length =
        u.tokens.length + (memberTokens members).length + 4 := by
      simp only [tokens, List.length_append, List.length_cons, List.length_nil]
      omega
    rcases List.mem_cons.mp h with rfl | h
    · omega
    · obtain ⟨m, hm, rfl⟩ := List.mem_map.mp h
      have hle := length_le_flatMap hm fun m => Token.comma :: memberOf m
      rw [← memberTokens_eq, memberOf, List.length_cons, List.length_cons, List.length_cons] at hle
      omega

/-- An item takes two tokens at the least: its own, and the comma or bracket in front of it. -/
theorem length_array_le (items : List Json) :
    2 * items.length ≤ (tokens (.array items)).length := by
  have hitems : ∀ items, 2 * items.length ≤ (itemTokens items).length := by
    intro items
    induction items with
    | nil => exact Nat.le_refl _
    | cons v items ih =>
      have hpos := List.length_pos_iff.mpr (tokens_ne_nil v)
      simp only [itemTokens, List.length_append, List.length_cons]
      omega
  cases items with
  | nil => exact Nat.zero_le _
  | cons v items =>
    have := hitems items
    simp only [tokens, List.length_append, List.length_cons, List.length_nil]
    omega

/-- A character takes at least one byte. -/
theorem length_le_utf8ByteSize (document : String) : document.length ≤ document.utf8ByteSize := by
  induction document using String.push_induction with
  | empty => exact Nat.zero_le _
  | push s c ih =>
    have hpos := c.utf8Size_pos
    rw [String.length_push, String.utf8ByteSize_push]
    omega

theorem length_tokens_le {document : String} {v : Json} (h : read? document = some v) :
    v.tokens.length ≤ document.length :=
  length_lex? (read?_eq_some_iff.mp h)

end RemoteScreen.Json
