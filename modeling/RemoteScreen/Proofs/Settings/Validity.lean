import RemoteScreen.Settings

/-! Which settings can be used. `validate` goes through a list of checks (`validate_eq`): it accepts
exactly the settings that no check refuses, and reports the first of the checks that do. -/

namespace RemoteScreen.Settings

variable {s : Settings} {i : Invalidity} {todo : List Invalidity}

/-- The checks in their order; the one of the bounds names them. -/
def checks (s : Settings) : List Invalidity :=
  let c := s.connection
  [.noOutboundCapacity, .noSubnegotiation, .noMinimum,
    .minimumAboveMaximum c.minColumns c.minRows c.maxColumns c.maxRows, .emptyScreen]

/-- A check refuses settings. -/
def Fails (s : Settings) : Invalidity → Prop
  | .noOutboundCapacity => s.connection.outboundCapacity = 0
  | .noSubnegotiation => s.connection.maxSubnegotiation = 0
  | .noMinimum => s.connection.minColumns = 0 ∨ s.connection.minRows = 0
  | .minimumAboveMaximum minColumns minRows maxColumns maxRows =>
    maxColumns < minColumns ∨ maxRows < minRows
  | .emptyScreen => s.screen.columns = 0 ∨ s.screen.rows = 0

instance (s : Settings) : DecidablePred s.Fails
  | .noOutboundCapacity => inferInstanceAs (Decidable (s.connection.outboundCapacity = 0))
  | .noSubnegotiation => inferInstanceAs (Decidable (s.connection.maxSubnegotiation = 0))
  | .noMinimum => inferInstanceAs (Decidable (s.connection.minColumns = 0 ∨ _))
  | .minimumAboveMaximum minColumns _ maxColumns _ =>
    inferInstanceAs (Decidable (maxColumns < minColumns ∨ _))
  | .emptyScreen => inferInstanceAs (Decidable (s.screen.columns = 0 ∨ _))

/-- A check refuses settings that the ones before it let pass. -/
def FirstFailure (s : Settings) (i : Invalidity) : Prop :=
  ∃ before after, s.checks = before ++ i :: after ∧ s.Fails i ∧ ∀ j ∈ before, ¬s.Fails j

/-- The checks of a list, one after another. -/
def run (s : Settings) : List Invalidity → Except Invalidity Unit
  | [] => .ok ()
  | i :: todo => if s.Fails i then .error i else s.run todo

theorem validate_eq (s : Settings) : s.validate = s.run s.checks :=
  rfl

theorem run_eq_ok_iff : s.run todo = .ok () ↔ ∀ i ∈ todo, ¬s.Fails i := by
  induction todo with
  | nil => exact iff_of_true rfl nofun
  | cons i todo ih =>
    rw [run, List.forall_mem_cons]
    split
    next hfails => exact iff_of_false nofun fun h => h.1 hfails
    next hpasses => rw [ih, and_iff_right hpasses]

theorem run_eq_error_iff : s.run todo = .error i ↔
    ∃ before after, todo = before ++ i :: after ∧ s.Fails i ∧ ∀ j ∈ before, ¬s.Fails j := by
  induction todo with
  | nil =>
    refine iff_of_false nofun ?_
    rintro ⟨before, after, htodo, -⟩
    exact List.append_ne_nil_of_right_ne_nil before (List.cons_ne_nil _ _) htodo.symm
  | cons j todo ih =>
    rw [run]
    split
    next hfails =>
      constructor
      · intro h
        cases h
        exact ⟨[], todo, rfl, hfails, nofun⟩
      · rintro ⟨_ | ⟨k, before⟩, after, htodo, -, hbefore⟩ <;> cases htodo
        · rfl
        · exact absurd hfails (hbefore _ List.mem_cons_self)
    next hpasses =>
      rw [ih]
      constructor
      · rintro ⟨before, after, rfl, hfails, hbefore⟩
        exact ⟨j :: before, after, rfl, hfails, List.forall_mem_cons.mpr ⟨hpasses, hbefore⟩⟩
      · rintro ⟨_ | ⟨k, before⟩, after, htodo, hfails, hbefore⟩ <;> cases htodo
        · exact absurd hfails hpasses
        · exact ⟨before, after, rfl, hfails, (List.forall_mem_cons.mp hbefore).2⟩

theorem validate_eq_ok_iff : s.validate = .ok () ↔ ∀ i ∈ s.checks, ¬s.Fails i := by
  rw [validate_eq, run_eq_ok_iff]

theorem validate_eq_error_iff : s.validate = .error i ↔ s.FirstFailure i := by
  rw [validate_eq, run_eq_error_iff, FirstFailure]

theorem bounds_of_validate (h : s.validate = .ok ()) :
    s.connection.minColumns ≤ s.connection.maxColumns ∧
      s.connection.minRows ≤ s.connection.maxRows := by
  have hbounds : ¬(s.connection.maxColumns < s.connection.minColumns ∨
      s.connection.maxRows < s.connection.minRows) :=
    validate_eq_ok_iff.mp h (.minimumAboveMaximum _ _ _ _) (by simp [checks])
  rwa [not_or, UInt16.not_lt, UInt16.not_lt] at hbounds

theorem positive_of_validate (h : s.validate = .ok ()) :
    (0 < s.connection.minColumns.toNat ∧ 0 < s.connection.minRows.toNat) ∧
      0 < s.screen.columns.toNat ∧ 0 < s.screen.rows.toNat := by
  have hminimum : ¬(s.connection.minColumns = 0 ∨ s.connection.minRows = 0) :=
    validate_eq_ok_iff.mp h .noMinimum (by simp [checks])
  have hscreen : ¬(s.screen.columns = 0 ∨ s.screen.rows = 0) :=
    validate_eq_ok_iff.mp h .emptyScreen (by simp [checks])
  have hpos : ∀ {n m : UInt16}, ¬(n = 0 ∨ m = 0) → 0 < n.toNat ∧ 0 < m.toNat := by
    intro n m hne
    obtain ⟨hn, hm⟩ := not_or.mp hne
    exact ⟨UInt16.pos_iff_ne_zero.mpr hn, UInt16.pos_iff_ne_zero.mpr hm⟩
  exact ⟨hpos hminimum, hpos hscreen⟩

theorem validate_default : validate {} = .ok () :=
  rfl

end RemoteScreen.Settings
