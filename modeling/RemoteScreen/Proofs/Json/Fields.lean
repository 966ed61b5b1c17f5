import Mathlib.Data.List.Nodup
import RemoteScreen.Proofs.Json.Forms

/-! Objects that set some fields of a record and leave the others alone. What an object says of a field
is told by its members (`Sets`), in whatever order they stand and whatever others stand between them;
and what is read for the field is what was set, or its default. -/

namespace RemoteScreen.Json

variable {α β : Type} {writes : Json → β → Prop} {members : List (Text × Json)} {names : List String}
  {name : String} {v : Json}

/-! ### Members -/

/-- Every member has characters for a name, and none of some names is repeated. -/
structure Distinct (names : List String) (members : List (Text × Json)) : Prop where
  named : ∀ m ∈ members, m.1.isSome = true
  once : ∀ name ∈ names, occurrences members name ≤ 1

/-- Members set a field to what the member of its name writes, and leave it alone if there is none. -/
def Sets (writes : Json → β → Prop) (members : List (Text × Json)) (name : String) : Option β → Prop
  | some b => ∃ v, (some name, v) ∈ members ∧ writes v b
  | none => ∀ v, (some name, v) ∉ members

/-- A form writes the value that is read from it. -/
def Reads [JsonForm α] (v : Json) (a : α) : Prop :=
  ofJson? v = some a

theorem fields?_object (h : Distinct names members) :
    fields? names (.object members) = some (names.map (member? members)) := by
  have hnamed : members.all (·.1.isSome) = true := List.all_eq_true.mpr h.named
  have honce : names.all (occurrences members · ≤ 1) = true :=
    List.all_eq_true.mpr fun name hname => decide_eq_true (h.once name hname)
  rw [fields?, hnamed, honce, Bool.and_self, if_pos rfl]

theorem member?_of_mem (honce : occurrences members name ≤ 1) (hv : (some name, v) ∈ members) :
    member? members name = some v := by
  induction members with
  | nil => cases hv
  | cons m members ih =>
    rcases List.mem_cons.mp hv with rfl | hv
    · rw [member?, List.find?_cons_of_pos (by simp)]
      rfl
    · by_cases hm : m.1 = some name
      · rw [occurrences, List.countP_cons_of_pos (by simpa using hm)] at honce
        have hnone := List.countP_eq_zero.mp (Nat.le_zero.mp (Nat.le_of_succ_le_succ honce))
        exact absurd (by simp) (hnone _ hv)
      · rw [occurrences, List.countP_cons_of_neg (by simpa using hm)] at honce
        rw [member?, List.find?_cons_of_neg (by simpa using hm)]
        exact ih honce hv

theorem member?_of_notMem (h : ∀ v, (some name, v) ∉ members) : member? members name = none := by
  rw [member?, Option.map_eq_none_iff, List.find?_eq_none]
  intro m hm hname
  exact h m.2 (of_decide_eq_true hname ▸ hm)

/-- The field has what its member is read as, or the default. -/
theorem Distinct.optional? [JsonForm α] {read : β → α} {b : Option β}
    (hdistinct : Distinct names members) (hname : name ∈ names) (h : Sets writes members name b)
    (hread : ∀ v b, writes v b → ofJson? v = some (read b)) (default : α) :
    optional? default (member? members name) = some ((b.map read).getD default) := by
  cases b with
  | none =>
    rw [member?_of_notMem h]
    rfl
  | some b =>
    obtain ⟨v, hmem, hwrites⟩ := h
    rw [member?_of_mem (hdistinct.once name hname) hmem]
    exact hread v b hwrites

theorem Distinct.optional?_reads [JsonForm α] {a : Option α} (hdistinct : Distinct names members)
    (hname : name ∈ names) (h : Sets Reads members name a) (default : α) :
    Json.optional? default (member? members name) = some (a.getD default) := by
  have hread : ∀ (v : Json) (a : α), Reads v a → ofJson? v = some (id a) := fun _ _ h => h
  rw [hdistinct.optional? hname h hread, Option.map_id, id]

/-! ### Records of some fields -/

/-- The fields of a record that are set, of all that it may have. -/
def present (entries : List (String × Option Json)) : List (String × Json) :=
  entries.filterMap fun (name, v) => v.map (name, ·)

/-- The members of a record. -/
def membersOf (fields : List (String × Json)) : List (Text × Json) :=
  fields.map fun (name, v) => (some name, v)

theorem mem_present {entries : List (String × Option Json)} :
    (name, v) ∈ present entries ↔ (name, some v) ∈ entries := by
  rw [present, List.mem_filterMap]
  constructor
  · rintro ⟨⟨name', v'⟩, he, hv⟩
    obtain ⟨w, rfl, hw⟩ := Option.map_eq_some_iff.mp hv
    cases hw
    exact he
  · exact fun h => ⟨_, h, rfl⟩

theorem mem_membersOf {fields : List (String × Json)} :
    (some name, v) ∈ membersOf fields ↔ (name, v) ∈ fields := by
  simp [membersOf]

theorem names_present (entries : List (String × Option Json)) :
    ((present entries).map (·.1)).Sublist (entries.map (·.1)) := by
  induction entries with
  | nil => exact .slnil
  | cons e entries ih =>
    obtain ⟨name, _ | v⟩ := e
    · exact ih.cons name
    · exact ih.cons_cons name

theorem distinct_present {entries : List (String × Option Json)}
    (hnames : (entries.map (·.1)).Nodup) : Distinct names (membersOf (present entries)) where
  named m hm := by
    obtain ⟨f, -, rfl⟩ := List.mem_map.mp hm
    rfl
  once name _ := occurrences_record ((names_present entries).nodup hnames) name

theorem sets_present {entries : List (String × Option Json)} {b : Option β} {write : β → Json}
    (hnames : (entries.map (·.1)).Nodup) (h : (name, b.map write) ∈ entries)
    (hwrites : ∀ b, writes (write b) b) : Sets writes (membersOf (present entries)) name b := by
  cases b with
  | some b => exact ⟨write b, mem_membersOf.mpr (mem_present.mpr h), hwrites b⟩
  | none =>
    intro v hv
    have hv := mem_present.mp (mem_membersOf.mp hv)
    exact absurd (List.inj_on_of_nodup_map hnames h hv rfl) (by simp)

theorem plain_of_map {b : Option β} {write : β → Json} (hplain : ∀ b, Plain (write b))
    (h : b.map write = some v) : Plain v := by
  obtain ⟨b, -, rfl⟩ := Option.map_eq_some_iff.mp h
  exact hplain b

theorem plain_present {entries : List (String × Option Json)}
    (h : ∀ e ∈ entries, ∀ v, e.2 = some v → Plain v) : Plain (record (present entries)) :=
  plain_record fun f hf => h (f.1, some f.2) (mem_present.mp hf) f.2 rfl

end RemoteScreen.Json
