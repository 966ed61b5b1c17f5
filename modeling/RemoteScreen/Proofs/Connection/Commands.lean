import RemoteScreen.Proofs.Connection.Queue

/-! What can be taken for a command of the protocol. A command begins with the byte 0xFF, and no byte of
a code point, a number or a control sequence is above 0xF7 (`Plain`). So the screen sends no command,
whatever its cells hold, and of what a connection sends the bytes above 0xF7 are those of the requests
that are for commands (`Mixed`). -/

namespace RemoteScreen

/-- No byte begins a command: none is above 0xF7. -/
def Plain (bytes : List UInt8) : Prop :=
  ∀ b ∈ bytes, b ≤ 0xF7

instance (bytes : List UInt8) : Decidable (Plain bytes) :=
  inferInstanceAs (Decidable (∀ b ∈ bytes, b ≤ 0xF7))

variable {b : UInt8} {bytes more : List UInt8}

theorem plain_append : Plain (bytes ++ more) ↔ Plain bytes ∧ Plain more :=
  List.forall_mem_append

namespace Plain

theorem nil : Plain [] :=
  fun _ hb => nomatch hb

theorem cons (hb : b ≤ 0xF7) (h : Plain bytes) : Plain (b :: bytes) :=
  List.forall_mem_cons.mpr ⟨hb, h⟩

theorem append (h : Plain bytes) (hmore : Plain more) : Plain (bytes ++ more) :=
  plain_append.mpr ⟨h, hmore⟩

theorem flatMap {α : Type} {xs : List α} {f : α → List UInt8} (h : ∀ x ∈ xs, Plain (f x)) :
    Plain (xs.flatMap f) :=
  List.forall_mem_flatMap.mpr h

theorem iac_notMem (h : Plain bytes) : Telnet.iac ∉ bytes :=
  fun hmem => absurd (h _ hmem) (by decide)

end Plain

theorem ofNat_le {n : Nat} (h : n ≤ 0xF7) : UInt8.ofNat n ≤ 0xF7 := by
  rw [UInt8.le_iff_toNat_le, UInt8.toNat_ofNat']
  exact Nat.le_trans (Nat.mod_le _ _) h

/-! ### Code points and control sequences -/

theorem CodePoint.plain_encode (cp : Nat) : Plain (encode cp) := by
  have hcp : cp % limit < 0x200000 := Nat.mod_lt _ (by decide)
  have hrest : ∀ n, continuation n ≤ 0xF7 := fun n => ofNat_le (by omega)
  simp only [encode]
  split
  · exact .cons (ofNat_le (by omega)) .nil
  split
  · exact .cons (ofNat_le (by omega)) (.cons (hrest _) .nil)
  split
  · exact .cons (ofNat_le (by omega)) (.cons (hrest _) (.cons (hrest _) .nil))
  · exact .cons (ofNat_le (by omega)) (.cons (hrest _) (.cons (hrest _) (.cons (hrest _) .nil)))

theorem CodePoint.plain_encodeText (text : String) : Plain (encodeText text) :=
  .flatMap fun cp _ => plain_encode cp

theorem Decimal.plain_bytes (n : Nat) : Plain (Decimal.bytes n) := by
  intro b hb
  obtain ⟨d, hd, rfl⟩ := List.mem_map.mp hb
  have hten := lt_ten_of_mem_digits hd
  exact ofNat_le (by omega)

namespace ControlSequence

theorem plain_parameters (codes : List Nat) : Plain (parameters codes) := by
  induction codes with
  | nil => exact .nil
  | cons n codes ih =>
    cases codes with
    | nil => exact (Decimal.plain_bytes n).append .nil
    | cons m codes => exact (Decimal.plain_bytes n).append (.append (by decide +kernel) ih)

theorem plain_introducer : Plain introducer :=
  .cons (by decide) (.cons (by decide) .nil)

theorem plain_setStyle (previous : Option Cell) (cell : Cell) : Plain (setStyle previous cell) := by
  unfold setStyle
  refine .append (.append plain_introducer (plain_parameters _)) ?_
  decide +kernel

theorem plain_cursorPosition (row col : Nat) : Plain (cursorPosition row col) := by
  unfold cursorPosition
  refine .append (.append (.append (.append plain_introducer (Decimal.plain_bytes _)) ?_)
    (Decimal.plain_bytes _)) ?_
  · decide +kernel
  · decide +kernel

end ControlSequence

/-! ### Screens -/

namespace Screen

variable {s t : Screen}

theorem plain_encode (s : Screen) (i : Nat) (next : Cell) : Plain (s.encode i next) := by
  refine .append (.append ?_ ?_) (CodePoint.plain_encode _)
  · split
    · exact .nil
    · exact ControlSequence.plain_cursorPosition _ _
  · split
    · exact .nil
    · exact ControlSequence.plain_setStyle _ _

/-- What a call sends and what it leaves of a split cell are plain, if what it finds of one is. -/
theorem Gives.plain (h : s.Gives bytes t) (htail : Plain s.tail.pending) :
    Plain bytes ∧ Plain t.tail.pending := by
  obtain ⟨es, hes, heq⟩ := h
  rw [← plain_append, heq]
  refine htail.append (.flatMap fun e he => ?_)
  obtain ⟨hindex, peer, hbytes⟩ := hes e he
  rw [hbytes]
  exact plain_encode _ _ _

theorem Reachable.plain_tail (h : Reachable s) : Plain s.tail.pending := by
  induction h with
  | create h =>
    rw [tail_of_create h]
    exact .nil
  | call _ k ih => exact ((call_gives _ k).plain ih).2

theorem Reachable.plain_run (h : Reachable s) (calls : List Call) : Plain (s.run calls).1 := by
  induction calls generalizing s with
  | nil => exact .nil
  | cons k ks ih =>
    have hfirst := ((s.call_gives k).plain h.plain_tail).1
    exact hfirst.append (ih (h.call k))

end Screen

namespace Connection

variable {c : Connection} {settings : ConnectionSettings} {queue queue' sent sent' : List UInt8}
  {taken : List Request}

/-! ### Queued bytes among others -/

/-- Each byte is the next one of a queue, or plain. -/
inductive Mixed : List UInt8 → List UInt8 → Prop where
  | nil : Mixed [] []
  | queued {queue sent : List UInt8} {b : UInt8} (h : Mixed queue sent) : Mixed (b :: queue) (b :: sent)
  | plain {queue sent : List UInt8} {b : UInt8} (hb : b ≤ 0xF7) (h : Mixed queue sent) :
      Mixed queue (b :: sent)

/-- The bytes that no screen sends. -/
def high (bytes : List UInt8) : List UInt8 :=
  bytes.filter (0xF7 < ·)

theorem high_append (a b : List UInt8) : high (a ++ b) = high a ++ high b :=
  List.filter_append a b

theorem high_of_plain (h : Plain bytes) : high bytes = [] :=
  List.filter_eq_nil_iff.mpr fun b hb hlt => UInt8.not_lt.mpr (h b hb) (of_decide_eq_true hlt)

namespace Mixed

theorem self (bytes : List UInt8) : Mixed bytes bytes := by
  induction bytes with
  | nil => exact .nil
  | cons b bytes ih => exact .queued ih

theorem of_plain (h : Plain bytes) : Mixed [] bytes := by
  induction bytes with
  | nil => exact .nil
  | cons b bytes ih =>
    obtain ⟨hb, hbytes⟩ := List.forall_mem_cons.mp h
    exact .plain hb (ih hbytes)

theorem append (h : Mixed queue sent) (h' : Mixed queue' sent') :
    Mixed (queue ++ queue') (sent ++ sent') := by
  induction h with
  | nil => exact h'
  | queued _ ih => exact .queued ih
  | plain hb _ ih => exact .plain hb ih

theorem append_plain (h : Mixed queue sent) (hplain : Plain bytes) : Mixed queue (sent ++ bytes) := by
  have hall := h.append (of_plain hplain)
  rwa [List.append_nil] at hall

theorem high_eq (h : Mixed queue sent) : high sent = high queue := by
  induction h with
  | nil => rfl
  | queued _ ih =>
    simp only [high, List.filter_cons] at ih ⊢
    rw [ih]
  | plain hb _ ih =>
    rw [← ih]
    exact List.filter_cons_of_neg fun hlt => UInt8.not_lt.mpr hb (of_decide_eq_true hlt)

end Mixed

/-! ### Requests -/

/-- Whether a request is for bytes of the caller's own, or for a negotiation. -/
def Request.MayCommand : Request → Prop
  | .bytes _ | .negotiation => True
  | _ => False

instance (r : Request) : Decidable r.MayCommand :=
  match r with
  | .bytes _ | .negotiation => .isTrue trivial
  | .text _ | .resetStyle | .clearScreen | .moveCursor _ _ | .cursorVisible _ => .isFalse id

theorem Request.plain_encode {r : Request} (h : ¬r.MayCommand) : Plain r.encode := by
  cases r with
  | bytes b => exact absurd trivial h
  | text t => exact CodePoint.plain_encodeText t
  | negotiation => exact absurd trivial h
  | resetStyle => decide +kernel
  | clearScreen => decide +kernel
  | moveCursor x y => exact ControlSequence.plain_cursorPosition y x
  | cursorVisible visible => cases visible <;> decide +kernel

theorem high_requests (rs : List Request) :
    high (rs.flatMap Request.encode) = high ((rs.filter (·.MayCommand)).flatMap Request.encode) := by
  induction rs with
  | nil => rfl
  | cons r rs ih =>
    rw [List.flatMap_cons, high_append, ih, List.filter_cons]
    by_cases hr : r.MayCommand
    · rw [if_pos (decide_eq_true hr), List.flatMap_cons, high_append]
    · rw [if_neg (mt of_decide_eq_true hr), high_of_plain (Request.plain_encode hr)]
      rfl

/-! ### Histories -/

/-- What has been sent is the accepted requests up to what is queued, with plain bytes between. -/
def Sourced (sent : List UInt8) (taken : List Request) (c : Connection) : Prop :=
  ∃ gone, Mixed gone sent ∧ gone ++ c.outbound.pending = taken.flatMap Request.encode

theorem flatMap_opening (settings : ConnectionSettings) :
    (opening settings).flatMap Request.encode = (openingWrites settings).flatten := by
  unfold opening openingWrites
  split <;> rfl

theorem Sourced.submit (h : Sourced sent taken c) (r : Request) :
    Sourced sent (taken ++ c.takenBy (.submit r)) (c.submit r).2 := by
  obtain ⟨gone, hmixed, hgone⟩ := h
  cases hacc : (c.submit r).1 with
  | true =>
    refine ⟨gone, hmixed, ?_⟩
    rw [takenBy, if_pos hacc, List.flatMap_append, List.flatMap_singleton, ← hgone,
      submit_of_accepted hacc, ByteQueue.pending_push, List.append_assoc]
  | false =>
    rw [takenBy, if_neg (by rw [hacc]; exact Bool.false_ne_true), List.append_nil,
      submit_of_refused hacc]
    exact ⟨gone, hmixed, hgone⟩

/-- Around what a flush takes of the queue there is only what the screen sends. -/
theorem Sourced.flush (h : Sourced sent taken c) (htail : Plain c.screen.tail.pending)
    (capacity : Nat) : Sourced (sent ++ (c.flush capacity).1.bytes) taken (c.flush capacity).2 := by
  obtain ⟨gone, hmixed, hgone⟩ := h
  obtain ⟨front, back, hbytes, hpending, hgives⟩ := c.flush_parts capacity
  obtain ⟨hfront, hback⟩ := plain_append.mp (hgives.plain htail).1
  rw [hbytes]
  refine ⟨_, hmixed.append (((Mixed.of_plain hfront).append (.self _)).append_plain hback), ?_⟩
  rw [hpending, List.nil_append, List.append_assoc, List.take_append_drop]
  exact hgone

theorem Sourced.call (h : Sourced sent taken c) (htail : Plain c.screen.tail.pending) (k : Call) :
    Sourced (sent ++ (c.call k).1) (taken ++ c.takenBy k) (c.call k).2 := by
  cases k with
  | submit r =>
    rw [Connection.call, List.append_nil]
    exact h.submit r
  | flush capacity =>
    rw [show c.takenBy (.flush capacity) = [] from rfl, List.append_nil]
    exact h.flush htail capacity
  | screen k =>
    obtain ⟨gone, hmixed, hgone⟩ := h
    rw [show c.takenBy (.screen k) = [] from rfl, List.append_nil]
    exact ⟨gone, hmixed.append_plain ((c.screen.call_gives k).plain htail).1, hgone⟩
  | parse bytes =>
    obtain ⟨-, hqueue⟩ := c.parse_frame bytes
    rw [show c.takenBy (.parse bytes) = [] from rfl, List.append_nil, Connection.call,
      List.append_nil, Sourced, hqueue]
    exact h
  | clearKeyboard =>
    rw [show c.takenBy .clearKeyboard = [] from rfl, List.append_nil, Connection.call,
      List.append_nil]
    exact h

theorem History.sourced (h : History settings sent taken c) : Sourced sent taken c := by
  induction h with
  | create _ h =>
    obtain ⟨-, hpending⟩ := create_frame h
    refine ⟨[], .nil, ?_⟩
    rw [hpending, flatMap_opening]
    rfl
  | call h k ih => exact ih.call (screen_reachable h.reachable).plain_tail k
  | replace _ _ ih => exact ih

/-! ### Commands -/

/-- Whatever a screen holds and whatever calls it takes, all it sends is plain, so there is no command
in it; and so is every request but one for bytes or for a negotiation. Whatever a connection has been
used for, each byte that it has sent is plain or the next one of the accepted requests. So the bytes
above 0xF7 that it has sent, and those that it has still queued, are those of the requests that may
command, one for one. -/
theorem commands_from_requests {s : Screen} (hs : s.Reachable)
    (h : History settings sent taken c) :
    (∀ calls : List Screen.Call, Plain (s.run calls).1 ∧ Telnet.iac ∉ (s.run calls).1) ∧
    (∀ r : Request, ¬r.MayCommand → Plain r.encode) ∧
    (∃ gone, Mixed gone sent ∧ gone ++ c.outbound.pending = taken.flatMap Request.encode) ∧
    high sent ++ high c.outbound.pending =
      high ((taken.filter (·.MayCommand)).flatMap Request.encode) := by
  refine ⟨fun calls => ?_, fun r => Request.plain_encode, h.sourced, ?_⟩
  · exact ⟨hs.plain_run calls, (hs.plain_run calls).iac_notMem⟩
  · obtain ⟨gone, hmixed, hgone⟩ := h.sourced
    rw [hmixed.high_eq, ← high_append, hgone, high_requests]

/-- A cell whose bits are all ones is cut twice. A command and the letter U+00FF are queued behind it,
and a second command is refused. -/
def cutByCommand : List Call :=
  [.screen (.perform (.blit 0 0 1 1 [⟨0xFFFFFFFF⟩])), .flush 21, .submit (.bytes [0xFF, 0xF9]),
    .submit (.text "ÿ"), .submit (.bytes [0xFF]), .flush 4, .flush 20]

theorem commands_from_requests_of_cut : ∃ c₀ c sent, ofSettings {
      screen := { columns := 1, rows := 1 }, connection := { outboundCapacity := 4 } } = .ok c₀ ∧
    c₀.run cutByCommand = (sent, c) ∧ sent.length = 32 ∧
    Telnet.iac ∉ (c.screen.run [.perform .repaintOnce, .flush 21 0, .finishCell 4]).1 ∧
    high sent = [0xFF, 0xF9] := by
  obtain ⟨c₀, hnew, htaken, hqueue, hlength⟩ : ∃ c₀, ofSettings {
        screen := { columns := 1, rows := 1 }, connection := { outboundCapacity := 4 } } = .ok c₀ ∧
      c₀.takenIn cutByCommand = [.bytes [0xFF, 0xF9], .text "ÿ"] ∧
      (c₀.run cutByCommand).2.outbound.pending = [] ∧ (c₀.run cutByCommand).1.length = 32 :=
    ⟨_, rfl, by decide +kernel, by decide +kernel, by decide +kernel⟩
  have h := (history_of_ofSettings hnew).run cutByCommand
  obtain ⟨hplain, -, -, hhigh⟩ := commands_from_requests (screen_reachable h.reachable) h
  obtain ⟨-, hiac⟩ := hplain [.perform .repaintOnce, .flush 21 0, .finishCell 4]
  refine ⟨c₀, (c₀.run cutByCommand).2, (c₀.run cutByCommand).1, hnew, (Prod.eta _).symm, hlength,
    hiac, ?_⟩
  rw [hqueue, htaken, show high [] = [] from rfl, List.append_nil, List.nil_append] at hhigh
  exact hhigh.trans (by decide +kernel)

end Connection
end RemoteScreen
