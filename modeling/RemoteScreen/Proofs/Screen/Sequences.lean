import RemoteScreen.Proofs.Display.Reading
import RemoteScreen.Proofs.Screen.Actions
import RemoteScreen.Proofs.Screen.Due
import RemoteScreen.Proofs.Screen.Progress

/-! What a pass sends, item by item. A display reads each item as what it is (`read_encodeItems`).
The sequence of a cell depends on the cell that was sent before it and on nothing else: what a screen
keeps of its peer is where that cell was and its style (`Knows`). Which cell it was is told by the
calls so far (`lastSent`), and no call leaves the two apart. A part of a pass takes the first of the
cells that are due and leaves the others (`Sends.sequences`). -/

namespace RemoteScreen
namespace Screen

variable {all : Bool} {capacity start used width : Nat} {s t u : Screen} {es : List Emission}
  {last : Option Placement} {d : Display}

/-! ### Sequences -/

/-- A part of what is sent for a cell. -/
inductive Item where
  | move (row col : Nat)
  /-- A change from a style, if one is known, to that of a cell. -/
  | style (previous : Option Cell) (cell : Cell)
  | glyph (cp : Nat)
  deriving DecidableEq

/-- The bytes of an item. -/
def Item.encode : Item → List UInt8
  | move row col => ControlSequence.cursorPosition row col
  | style previous cell => ControlSequence.setStyle previous cell
  | glyph cp => CodePoint.encode cp

/-- Whether an item changes the style. -/
def Item.isStyle : Item → Bool
  | style _ _ => true
  | _ => false

/-- The bytes of some items, one after another. -/
def encodeItems (items : List Item) : List UInt8 :=
  items.flatMap Item.encode

theorem encodeItems_append (items more : List Item) :
    encodeItems (items ++ more) = encodeItems items ++ encodeItems more :=
  List.flatMap_append

/-- The cell at index `i` has the one that was sent last right before it, in the same row. -/
def Adjoins (width : Nat) (last : Option Placement) (i : Nat) : Prop :=
  i % width ≠ 0 ∧ ∃ p, last = some p ∧ p.1 + 1 = i

instance (width : Nat) (last : Option Placement) (i : Nat) : Decidable (Adjoins width last i) :=
  match last with
  | some p => decidable_of_iff (i % width ≠ 0 ∧ p.1 + 1 = i)
    ⟨fun ⟨hcol, hi⟩ => ⟨hcol, p, rfl, hi⟩, fun ⟨hcol, _, hp, hi⟩ => ⟨hcol, Option.some.inj hp ▸ hi⟩⟩
  | none => .isFalse fun ⟨_, _, hp, _⟩ => nomatch hp

/-- The style of the cell that was sent last, if there is one. -/
def styleOf (last : Option Placement) : Option Cell :=
  last.map fun p => p.2.style

/-- What is sent for a cell behind the cell `last`. -/
def sequence (width : Nat) (last : Option Placement) (p : Placement) : List Item :=
  (if Adjoins width last p.1 then [] else [.move (p.1 / width) (p.1 % width)]) ++
    (if styleOf last = some p.2.style then [] else [.style (styleOf last) p.2]) ++
    [.glyph p.2.codePoint]

/-- What is sent for some cells one after another. -/
def sequences (width : Nat) (last : Option Placement) : List Placement → List Item
  | [] => []
  | p :: ps => sequence width last p ++ sequences width (some p) ps

/-- How often the style changes along some cells. -/
def styleChanges (ps : List Placement) : Nat :=
  (ps.zip ps.tail).countP fun (p, q) => p.2.style ≠ q.2.style

theorem styleChanges_cons (p q : Placement) (ps : List Placement) :
    styleChanges (p :: q :: ps) =
      styleChanges (q :: ps) + if p.2.style ≠ q.2.style then 1 else 0 := by
  simp only [styleChanges, List.tail_cons, List.zip_cons_cons, List.countP_cons, decide_eq_true_eq]

theorem countP_sequence (width : Nat) (last : Option Placement) (p : Placement) :
    (sequence width last p).countP Item.isStyle = if styleOf last = some p.2.style then 0 else 1 := by
  unfold sequence
  split <;> split <;> rfl

/-- Some cells take as many changes of style as there are along them, and one more for the first cell
if no style is known. -/
theorem countP_sequences (width : Nat) (last : Option Placement) (ps : List Placement) :
    (sequences width last ps).countP Item.isStyle =
      styleChanges (last.toList ++ ps) + if last = none ∧ ps ≠ [] then 1 else 0 := by
  induction ps generalizing last with
  | nil => cases last <;> rfl
  | cons p ps ih =>
    rw [sequences, List.countP_append, countP_sequence, ih]
    cases last with
    | none => simp [styleOf, Nat.add_comm]
    | some q => simp [styleOf, styleChanges_cons, Nat.add_comm]

/-! ### Items on a display -/

/-- What an item is for a display: the cursor goes to a place, the pen takes the look of a cell, or a
glyph is put at the cursor. -/
def Item.apply (d : Display) : Item → Display
  | move row col => { d with row, column := col }
  | style _ cell => { d with pen := .ofCell cell }
  | glyph cp => d.put cp

/-- Whether a display reads an item as what it is: no number is cut off, a change of style begins with
the pen that the display has, and the code point has a glyph. -/
def Item.Readable (d : Display) : Item → Prop
  | move row col => row < ControlSequence.maxParameter ∧ col < ControlSequence.maxParameter
  | style previous _ => ∀ c, previous = some c → d.pen = .ofCell c
  | glyph cp => cp < CodePoint.limit ∧ Display.Printable cp

theorem Item.mode_apply (d : Display) (item : Item) : (item.apply d).mode = d.mode := by
  cases item with
  | move row col => rfl
  | style previous cell => rfl
  | glyph cp => exact Display.mode_put cp

theorem Item.read_encode {item : Item} (hd : d.mode = .ground) (h : item.Readable d) :
    d.read item.encode = item.apply d := by
  have hmode := (item.mode_apply d).trans hd
  cases item with
  | move row col =>
    rw [encode, Display.read_cursorPosition row col hd, Display.ordinal_sub_one h.1,
      Display.ordinal_sub_one h.2, ← hd]
    rfl
  | style previous cell =>
    rw [encode, Display.read_setStyle hd h, ← hd]
    rfl
  | glyph cp =>
    rw [encode, Display.read_encode_of_lt h.1 h.2 hd, ← hmode]
    rfl

/-- Items each of which a display reads as what it is, behind the ones before it. -/
def Readable (d : Display) : List Item → Prop
  | [] => True
  | item :: items => item.Readable d ∧ Readable (item.apply d) items

theorem readable_append {items more : List Item} :
    Readable d (items ++ more) ↔ Readable d items ∧ Readable (items.foldl Item.apply d) more := by
  induction items generalizing d with
  | nil => exact ⟨fun h => ⟨trivial, h⟩, And.right⟩
  | cons item items ih =>
    rw [List.cons_append, Readable, Readable, List.foldl_cons, ih, and_assoc]

theorem read_encodeItems {items : List Item} (hd : d.mode = .ground) (h : Readable d items) :
    d.read (encodeItems items) = items.foldl Item.apply d := by
  induction items generalizing d with
  | nil => rfl
  | cons item items ih =>
    rw [encodeItems, List.flatMap_cons, Display.read_append, item.read_encode hd h.1, ← encodeItems,
      ih ((item.mode_apply d).trans hd) h.2, List.foldl_cons]

/-- A display whose pen has the style of the cell that was sent last reads the items of the next one,
and then has the style of that. -/
theorem readable_sequence {p : Placement} (hpen : ∀ c, styleOf last = some c → d.pen = .ofCell c)
    (hi : p.1 < ControlSequence.maxParameter) (hp : Display.Printable p.2.codePoint) :
    Readable d (sequence width last p) ∧
      ((sequence width last p).foldl Item.apply d).pen = .ofCell p.2 := by
  have hmove : p.1 / width < ControlSequence.maxParameter ∧
      p.1 % width < ControlSequence.maxParameter :=
    ⟨Nat.lt_of_le_of_lt (Nat.div_le_self _ _) hi, Nat.lt_of_le_of_lt (Nat.mod_le _ _) hi⟩
  have hglyph : p.2.codePoint < CodePoint.limit ∧ Display.Printable p.2.codePoint :=
    ⟨p.2.codePoint_lt, hp⟩
  have hsame (h : styleOf last = some p.2.style) : d.pen = .ofCell p.2 :=
    (hpen _ h).trans (Style.ofCell_style p.2)
  unfold sequence
  split <;> split
  next _ h => exact ⟨⟨hglyph, trivial⟩, (Display.pen_put _).trans (hsame h)⟩
  next => exact ⟨⟨hpen, hglyph, trivial⟩, Display.pen_put _⟩
  next _ h => exact ⟨⟨hmove, hglyph, trivial⟩, (Display.pen_put _).trans (hsame h)⟩
  next => exact ⟨⟨hmove, hpen, hglyph, trivial⟩, Display.pen_put _⟩

theorem readable_sequences {ps : List Placement}
    (hpen : ∀ c, styleOf last = some c → d.pen = .ofCell c)
    (hps : ∀ p ∈ ps, p.1 < ControlSequence.maxParameter ∧ Display.Printable p.2.codePoint) :
    Readable d (sequences width last ps) := by
  induction ps generalizing d last with
  | nil => trivial
  | cons p ps ih =>
    obtain ⟨hi, hp⟩ := hps p List.mem_cons_self
    obtain ⟨hfirst, hpen'⟩ := readable_sequence hpen hi hp
    refine readable_append.mpr ⟨hfirst, ih ?_ fun q hq => hps q (List.mem_cons_of_mem _ hq)⟩
    intro c hc
    cases hc
    exact hpen'.trans (Style.ofCell_style p.2).symm

/-! ### What is known of the peer -/

/-- What the screen keeps of its peer is that the cell `last` was sent last. -/
def Knows (s : Screen) (last : Option Placement) : Prop :=
  s.peer = ⟨styleOf last, last.map Prod.fst⟩

theorem styleEq_style_iff (c d : Cell) : c.style.styleEq d = true ↔ c.style = d.style := by
  constructor
  · intro h
    exact c.isStyle_style.symm.trans (Cell.style_eq_of_styleEq h)
  · intro h
    rw [Cell.styleEq, decide_eq_true_eq]
    exact congrArg Cell.bits (c.isStyle_style.trans h)

theorem adjoins_iff (h : s.Knows last) (i : Nat) :
    (s.peer.last.any (· + 1 = i) && decide (i % s.width ≠ 0)) = true ↔ Adjoins s.width last i := by
  rw [h, Bool.and_eq_true, decide_eq_true_eq, Adjoins, and_comm]
  cases last <;> simp

theorem any_styleEq_iff (last : Option Placement) (c : Cell) :
    (styleOf last).any (·.styleEq c) = true ↔ styleOf last = some c.style := by
  cases last with
  | none => simp [styleOf]
  | some p => simp [styleOf, styleEq_style_iff]

theorem encode_eq (h : s.Knows last) (i : Nat) (c : Cell) :
    s.encode i c = encodeItems (sequence s.width last (i, c)) := by
  have hstyle : s.peer.style = styleOf last := by rw [h]
  unfold encode sequence
  simp only [adjoins_iff h, hstyle, any_styleEq_iff, encodeItems_append]
  congr 1
  · congr 1
    · split <;> simp [encodeItems, Item.encode]
    · split <;> simp [encodeItems, Item.encode]
  · simp [encodeItems, Item.encode]

theorem bytes_emission (hk : s.Knows last) (h : s.position < s.target.size) :
    (s.emission h).bytes =
      encodeItems (sequence s.width last (s.position, s.target[s.position])) :=
  encode_eq hk _ _

theorem knows_advance (h : s.position < s.target.size) :
    (s.advance h).Knows (some (s.position, s.target[s.position])) := rfl

theorem or_getLast?_cons (p : Placement) (ps : List Placement) :
    (p :: ps).getLast?.or last = ps.getLast?.or (some p) := by
  rw [List.getLast?_cons]
  cases ps.getLast? <;> rfl

theorem Sends.sequences (h : Sends all s es u) (hall : all = s.forcing) (hk : s.Knows last) :
    ∃ sent, s.due = sent ++ u.due ∧ es.map Emission.index = sent.map Prod.fst ∧
      bytesOf es = encodeItems (sequences s.width last sent) ∧ u.Knows (sent.getLast?.or last) := by
  -- Each cell that is sent becomes the last one for those behind it.
  induction h generalizing last with
  | done => exact ⟨[], rfl, rfl, rfl, hk⟩
  | skip hp hd hs ih =>
    subst hall
    obtain ⟨sent, hdue, hindex, hbytes, hknows⟩ := ih rfl hk
    exact ⟨sent, (due_of_not_due hp hd).trans hdue, hindex, hbytes, hknows⟩
  | @send s u es hp hd hs ih =>
    subst hall
    obtain ⟨sent, hdue, hindex, hbytes, hknows⟩ := ih rfl (knows_advance hp)
    rw [due_advance] at hdue
    refine ⟨(s.position, s.target[s.position]) :: sent, ?_, ?_, ?_, ?_⟩
    · rw [due_of_due hp hd, hdue]
      rfl
    · rw [List.map_cons, List.map_cons, hindex]
      rfl
    · rw [bytesOf_cons, hbytes, Screen.sequences, encodeItems_append, bytes_emission hk]
      rfl
    · rwa [or_getLast?_cons]

theorem Sends.sent (h : Sends s.forcing s.withoutTail es u) (hk : s.Knows last) :
    ∃ sent, s.due = sent ++ u.due ∧ es.map Emission.index = sent.map Prod.fst ∧
      bytesOf es = encodeItems (Screen.sequences s.width last sent) ∧
      u.Knows (sent.getLast?.or last) :=
  Sends.sequences (s := s.withoutTail) h rfl hk

/-- What a sending call takes up, the tail of a split cell apart, are whole sequences of cells that are
due: it has sent their bytes, or keeps the last of them as the new tail. -/
theorem exists_taken (hk : s.Knows last) (capacity start : Nat) :
    ∃ es : List Emission,
      (s.sendAfter capacity start).1.bytes ++ (s.sendAfter capacity start).2.tail.pending =
        s.tail.pending ++ bytesOf es ∧
      ∀ e ∈ es, s.IsSequence e ∧ s.isDue e.index = true := by
  rcases s.sendAfter_cases capacity start with ⟨-, heq⟩ | ⟨-, es, u, o, t, hs, hstop, heq⟩
  · refine ⟨[], ?_, fun _ he => nomatch he⟩
    rw [heq, ByteQueue.pending_send, List.take_append_drop, bytesOf_nil, List.append_nil]
  obtain ⟨sent, hdue, hindex, -⟩ := hs.sent hk
  have hmem : ∀ p ∈ sent ++ u.due, s.isDue p.1 = true := fun p hp =>
    (mem_due.mp (hdue ▸ hp)).2.2
  have hes : ∀ e ∈ es, s.IsSequence e ∧ s.isDue e.index = true := by
    intro e he
    have hsent : e.index ∈ sent.map Prod.fst := hindex ▸ List.mem_map_of_mem he
    obtain ⟨p, hp, hpe⟩ := List.mem_map.mp hsent
    exact ⟨hs.isSequence e he, hpe ▸ hmem p (List.mem_append_left _ hp)⟩
  have htail : u.tail.pending = [] := by rw [hs.tail_eq]; rfl
  rw [heq]
  rcases hstop.taken htail with hnil | ⟨hp, hd, hnext⟩
  · refine ⟨es, ?_, hes⟩
    rw [List.append_assoc, hnil, List.append_nil]
  · refine ⟨es ++ [u.emission hp], ?_, fun e he => ?_⟩
    · rw [List.append_assoc, hnext, bytesOf_append, bytesOf_cons, bytesOf_nil, List.append_nil,
        List.append_assoc]
    · rcases List.mem_append.mp he with he | he
      · exact hes e he
      · rw [List.mem_singleton.mp he]
        have hnext : (u.position, u.target[u.position]) ∈ u.due := by
          rw [due_of_due hp (hs.forcing_eq ▸ hd)]
          exact List.mem_cons_self
        exact ⟨hs.isSequence_next hp, hmem _ (List.mem_append_right _ hnext)⟩

/-! ### The cell that was sent last -/

/-- Of some cells, to be sent into a buffer of which `used` bytes are taken, those that a call begins:
as many as fit, or else the first one if the buffer is empty and holds a byte. -/
def begun (capacity width used : Nat) (last : Option Placement) : List Placement → List Placement
  | [] => []
  | p :: ps =>
    let taken := used + (encodeItems (sequence width last p)).length
    if taken ≤ capacity then p :: begun capacity width taken (some p) ps
    else if used = 0 ∧ capacity ≠ 0 then [p]
    else []

/-- Whether an action that leads to `t` lets the screen forget its peer: others have written to the
peer, or the size has changed. -/
def Forgets (s : Screen) (a : Action) (t : Screen) : Prop :=
  a = .forgetPeer ∨ t.width ≠ s.width ∨ t.height ≠ s.height

instance (s : Screen) (a : Action) (t : Screen) : Decidable (Forgets s a t) :=
  inferInstanceAs (Decidable (_ ∨ _))

/-- The cell that was sent last, behind a call: the last one that the call begins, or else the one
before, unless the peer is forgotten. -/
def lastAfter (s : Screen) (last : Option Placement) : Call → Option Placement
  | .perform a => if Forgets s a (s.call (.perform a)).2 then none else last
  | .flush capacity start =>
    if start + s.tail.size ≤ capacity then
      (begun capacity s.width (start + s.tail.size) last s.due).getLast?.or last
    else last
  | .finishCell _ => last

/-- The cell that was sent last, behind some calls. -/
def lastSent (s : Screen) (last : Option Placement) : List Call → Option Placement
  | [] => last
  | c :: cs => (s.call c).2.lastSent (s.lastAfter last c) cs

theorem peer_reshape (s : Screen) (width height : Nat) : (s.reshape width height).peer =
    if width ≠ s.width ∨ height ≠ s.height then .unknown else s.peer := by
  unfold reshape
  split
  next heq => rw [if_neg (by simp [heq])]
  next hne =>
    rw [if_pos]
    · rfl
    · omega

theorem Effect.peer {a : Action} (he : Effect s a t) :
    t.peer = if Forgets s a t then .unknown else s.peer := by
  cases he with
  | draw ha =>
    refine (if_neg ?_).symm
    rintro (rfl | hwidth | hheight)
    · exact ha
    · exact hwidth rfl
    · exact hheight rfl
  | @resize width height =>
    obtain ⟨hwidth, hheight⟩ := s.size_reshape width height
    simp [Forgets, hwidth, hheight, peer_reshape]
  | @restore snapshot =>
    obtain ⟨hwidth, hheight⟩ := s.size_reshape snapshot.width snapshot.height
    simp [Forgets, hwidth, hheight, peer_reshape]
  | repaintAlways on => simp [Forgets, setRepaintAlways]
  | repaintOnce => simp [Forgets, requestRepaint]
  | forgetPeer => simp [Forgets, Screen.forgetPeer]

theorem begun_append {ps : List Placement} (rest : List Placement)
    (h : used + (encodeItems (Screen.sequences s.width last ps)).length ≤ capacity) :
    begun capacity s.width used last (ps ++ rest) =
      ps ++ begun capacity s.width (used + (encodeItems (Screen.sequences s.width last ps)).length)
        (ps.getLast?.or last) rest := by
  induction ps generalizing used last with
  | nil => rfl
  | cons p ps ih =>
    rw [Screen.sequences, encodeItems_append, List.length_append, ← Nat.add_assoc] at h ⊢
    rw [List.cons_append, begun, if_pos (Nat.le_of_add_right_le h), ih h, or_getLast?_cons]
    rfl

theorem Stop.knows {o : Output} (hstop : Stop u.forcing capacity used u o t) (hk : u.Knows last) :
    t.Knows ((begun capacity u.width used last u.due).getLast?.or last) := by
  cases hstop with
  | complete hend =>
    rw [due_of_le hend]
    exact hk
  | full hp hd hfull hused =>
    rw [bytes_emission hk] at hfull
    rw [due_of_due hp hd, begun, if_neg (Nat.not_le_of_lt hfull), if_neg fun h => h.2 (hused h.1)]
    exact hk
  | split hp hd hused hcap hfull =>
    rw [bytes_emission hk] at hfull
    rw [due_of_due hp hd, begun, if_neg (by omega), if_pos ⟨hused, Nat.ne_of_gt hcap⟩]
    rfl

theorem knows_sendAfter (hk : s.Knows last) (hle : start ≤ capacity) :
    (s.sendAfter capacity start).2.Knows (s.lastAfter last (.flush capacity start)) := by
  rcases s.sendAfter_cases capacity start with ⟨hlt, heq⟩ | ⟨hle', es, u, o, t, hs, hstop, heq⟩
  · rw [heq, lastAfter, if_neg (by omega)]
    exact hk
  have hroom := s.length_sendAfter_le hle
  rw [heq, List.length_append, List.length_append, ByteQueue.length_pending] at hroom
  obtain ⟨sent, hdue, -, hbytes, hknows⟩ := hs.sent hk
  rw [heq, lastAfter, if_pos (by omega), hdue, begun_append u.due (by rw [← hbytes]; omega), ← hbytes,
    List.getLast?_append, Option.or_assoc]
  -- The pass has kept the width, so the cells that are left begin as those of `s` do.
  obtain ⟨shown, peer, position, rfl, -, -⟩ := hs.frame
  exact hstop.knows hknows

theorem knows_call (hk : s.Knows last) (c : Call) : (s.call c).2.Knows (s.lastAfter last c) := by
  cases c with
  | perform a =>
    rw [lastAfter, call]
    cases h : s.perform a with
    | ok t =>
      have hpeer := (effect_of_perform h).peer
      dsimp only
      split
      next hforgets => exact hpeer.trans (if_pos hforgets)
      next hkeeps => exact (hpeer.trans (if_neg hkeeps)).trans hk
    | error e =>
      refine (if_neg ?_ : ite (Forgets s a s) none last = last).symm ▸ hk
      rintro (rfl | hwidth | hheight)
      · cases h
      · exact hwidth rfl
      · exact hheight rfl
  | flush capacity start =>
    by_cases hle : start ≤ capacity
    · rw [call, flushAfter, if_pos hle]
      exact knows_sendAfter hk hle
    · rw [call, flushAfter, if_neg hle, lastAfter, if_neg (by omega)]
      exact hk
  | finishCell capacity => exact hk

/-- What is known of the peer is the cell that was sent last, as the calls so far tell. -/
theorem knows_run (hk : s.Knows last) (cs : List Call) : (s.run cs).2.Knows (s.lastSent last cs) := by
  induction cs generalizing s last with
  | nil => exact hk
  | cons c cs ih => exact ih (knows_call hk c)

theorem knows_of_create {width height : Nat} {style : Cell} (h : create width height style = .ok s) :
    s.Knows none := by
  obtain ⟨-, rfl⟩ := create_inv h
  rfl

theorem knows_of_run {width height : Nat} {style : Cell} {s₀ : Screen} {calls : List Call}
    (hnew : create width height style = .ok s₀) (hs : (s₀.run calls).2 = s)
    (hlast : s₀.lastSent none calls = last) : WellFormed s ∧ s.Knows last := by
  subst hs hlast
  exact ⟨reachable_wellFormed ((Reachable.create hnew).run calls),
    knows_run (knows_of_create hnew) calls⟩

/-! ### Flushes that complete a pass -/

theorem due_increasing (s : Screen) : (s.due.map Prod.fst).Pairwise (· < ·) := by
  have hfst : s.due.map Prod.fst =
      ((s.target.toList.zipIdx.drop s.position).filter fun p => s.isDue p.2).map Prod.snd := by
    rw [due, List.map_map]
    rfl
  have hsub : (s.due.map Prod.fst).Sublist (s.target.toList.zipIdx.map Prod.snd) := by
    rw [hfst]
    exact (List.filter_sublist.trans (List.drop_sublist _ _)).map Prod.snd
  rw [List.zipIdx_map_snd] at hsub
  exact List.Pairwise.sublist hsub List.pairwise_lt_range'

theorem exists_completes (hk : s.Knows last)
    (hfits : start + s.tail.size + (encodeItems (Screen.sequences s.width last s.due)).length ≤
      capacity) :
    ∃ es u, s.Completes capacity start es u ∧
      bytesOf es = encodeItems (Screen.sequences s.width last s.due) := by
  obtain ⟨es, u, hs, hend⟩ := exists_sends s.forcing s.withoutTail
  obtain ⟨sent, hdue, -, hbytes, -⟩ := hs.sent hk
  rw [due_of_le hend, List.append_nil] at hdue
  rw [hdue] at hfits ⊢
  exact ⟨es, u, ⟨hs, hend, hbytes ▸ hfits⟩, hbytes⟩

theorem WellFormed.lt_of_mem_due (h : WellFormed s) {p : Placement} (hp : p ∈ s.due) :
    p.1 < ControlSequence.maxParameter := by
  obtain ⟨-, htarget, -⟩ := mem_due.mp hp
  exact h.lt_maxParameter (Array.getElem?_eq_some_iff.mp htarget).1

/-- A flush of a screen that no buffer has split, into a buffer that holds all there is, sends one
sequence for each cell from the position of the pass on that differs or is forced, in order, and
nothing else. The cursor moves at the start of a row and where the cell is not the next one behind
the cell that was sent last; the style changes if it is not that of the cell that was sent last, or
if none is known. A display with the style of that cell reads the bytes as these items, if all cells
have glyphs. All these cells are shown as they should then, the others as before; the next pass
begins at the start and is not forced once more, and something is pending exactly if a cell behind
the start of the pass differs. -/
theorem flushAfter_sends_due {width height : Nat} {style : Cell} {s₀ : Screen}
    (hnew : create width height style = .ok s₀) (calls : List Call) (hs : (s₀.run calls).2 = s)
    (hwhole : s.tail.pending = []) (hlast : s₀.lastSent none calls = last)
    (hfits : start + (encodeItems (Screen.sequences s.width last s.due)).length ≤ capacity) :
    ((s.due.map Prod.fst).Pairwise (· < ·) ∧ ∀ i c, (i, c) ∈ s.due ↔
      s.position ≤ i ∧ s.target[i]? = some c ∧ (s.forcing = true ∨ s.shown[i]? ≠ s.target[i]?)) ∧
    ((Screen.sequences s.width last s.due).countP Item.isStyle =
      styleChanges (last.toList ++ s.due) + if last = none ∧ s.due ≠ [] then 1 else 0) ∧
    ∃ o t, s.flushAfter capacity start = .ok (o, t) ∧
      o.bytes = encodeItems (Screen.sequences s.width last s.due) ∧
      (∀ d : Display, d.mode = .ground → (∀ c, styleOf last = some c → d.pen = .ofCell c) →
        (∀ p ∈ s.due, Display.Printable p.2.codePoint) →
        d.read o.bytes = (Screen.sequences s.width last s.due).foldl Item.apply d) ∧
      (∀ i, t.shown[i]? = if s.position ≤ i then s.target[i]? else s.shown[i]?) ∧
      t.target = s.target ∧ t.position = 0 ∧ t.repaintOnce = false ∧
      (o.pending = true ↔ s.Stale) := by
  obtain ⟨hw, hk⟩ := knows_of_run hnew hs hlast
  have hsize := hw.size_eq
  have htail : s.tail.size = 0 := (ByteQueue.pending_eq_nil_iff _).mp hwhole
  refine ⟨⟨s.due_increasing, fun i c => ?_⟩, countP_sequences _ _ _, ?_⟩
  · rw [mem_due, isDue, Bool.or_eq_true, decide_eq_true_eq]
  have hle : start ≤ capacity := Nat.le_of_add_right_le hfits
  have hroom : start + s.tail.size + (encodeItems (Screen.sequences s.width last s.due)).length ≤
      capacity := by
    rwa [htail, Nat.add_zero]
  obtain ⟨es, u, hcompletes, hbytes⟩ := exists_completes hk hroom
  have hstale : (!u.isClean) = true ↔ s.Stale := by
    rw [Bool.not_eq_true', Bool.eq_false_iff, ne_eq,
      hcompletes.sends.isClean_iff hcompletes.ends hsize rfl, stale_iff]
    rfl
  have hsent : s.tail.pending ++ bytesOf es = encodeItems (Screen.sequences s.width last s.due) := by
    rw [hwhole, hbytes, List.nil_append]
  refine ⟨⟨s.tail.pending ++ bytesOf es, !u.isClean⟩, u.endPass,
    flushAfter_eq_ok.mpr ⟨hle, hcompletes.sendAfter⟩, hsent, fun d hd hpen hprint => ?_,
    hcompletes.sends.shown_eq_of_end hcompletes.ends hsize, hcompletes.sends.target_eq, rfl, rfl, hstale⟩
  have hreadable : Readable d (Screen.sequences s.width last s.due) :=
    readable_sequences hpen fun p hp => ⟨hw.lt_of_mem_due hp, hprint p hp⟩
  exact (congrArg d.read hsent).trans (read_encodeItems hd hreadable)

/-- A pass stops behind its first cell; then that cell and the last one are written, in two styles. -/
def rewritten : List Call :=
  [.flush 17 0, .perform (.put 0 0 0x41), .perform (.setAttribute .bold true), .perform (.put 2 0 0x42)]

theorem flushAfter_sends_due_rewritten : ∃ s₀ s, create 3 1 .defaultStyle = .ok s₀ ∧
    (s₀.run rewritten).2 = s ∧ s.due.map Prod.fst = [1, 2] ∧
    ∃ o t, s.flushAfter 100 1 = .ok (o, t) ∧
      o.bytes = encodeItems (Screen.sequences s.width (s₀.lastSent none rewritten) s.due) ∧
      (∀ d : Display, d.mode = .ground → d.pen = .ofCell .defaultStyle →
        d.read o.bytes =
          (Screen.sequences s.width (s₀.lastSent none rewritten) s.due).foldl Item.apply d) ∧
      (o.pending = true ↔ s.Stale) := by
  obtain ⟨s₀, hnew, hwhole, hdue, hstyle, hprint, hfits⟩ : ∃ s₀,
      create 3 1 .defaultStyle = .ok s₀ ∧
      (s₀.run rewritten).2.tail.pending = [] ∧ (s₀.run rewritten).2.due.map Prod.fst = [1, 2] ∧
      styleOf (s₀.lastSent none rewritten) = some .defaultStyle ∧
      (∀ p ∈ (s₀.run rewritten).2.due, Display.Printable p.2.codePoint) ∧
      1 + (encodeItems (Screen.sequences (s₀.run rewritten).2.width (s₀.lastSent none rewritten)
        (s₀.run rewritten).2.due)).length ≤ 100 :=
    ⟨_, rfl, by decide +kernel, by decide +kernel, by decide +kernel, by decide +kernel,
      by decide +kernel⟩
  obtain ⟨-, -, o, t, hflush, hbytes, hread, -, -, -, -, hpend⟩ :=
    flushAfter_sends_due hnew rewritten rfl hwhole rfl hfits
  refine ⟨s₀, _, hnew, rfl, hdue, o, t, hflush, hbytes, fun d hd hpen => ?_, hpend⟩
  refine hread d hd (fun c hc => ?_) hprint
  rw [hstyle] at hc
  cases hc
  exact hpen

end Screen
end RemoteScreen
