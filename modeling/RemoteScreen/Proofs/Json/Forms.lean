import RemoteScreen.Cell.Form
import RemoteScreen.Proofs.Json.Printing

/-! Values from their JSON forms. A lawful form can be written in documents, and the value is read back
from it. The fields of a record are found by their names, and whatever is found in a form stands in it,
so no more is found than the form has tokens for. -/

namespace RemoteScreen

open Json

/-- A form from which the value is read, and which documents can write. -/
class LawfulForm (α : Type) [JsonForm α] : Prop where
  ofJson?_toJson (a : α) : ofJson? (toJson a) = some a
  plain (a : α) : Plain (toJson a)

namespace Json

variable {α : Type} [JsonForm α] {v w : Json} {name : String}

/-! ### Single values and lists -/

theorem natBelow?_ofNat {bound n : Nat} (h : n < bound) : natBelow? bound (ofNat n) = some n := by
  have hnat : nat? (ofNat n) = some n := Decimal.ofChars?_chars n
  rw [natBelow?, hnat, Option.filter_some, if_pos (decide_eq_true h)]

instance : LawfulForm Bool where
  ofJson?_toJson _ := rfl
  plain b := .bool b

instance : LawfulForm UInt16 where
  ofJson?_toJson n := by
    show (natBelow? UInt16.size (ofNat n.toNat)).map UInt16.ofNat = _
    rw [natBelow?_ofNat n.toNat_lt, Option.map_some, UInt16.ofNat_toNat]
  plain n := .nat n.toNat

instance : LawfulForm UInt32 where
  ofJson?_toJson n := by
    show (natBelow? UInt32.size (ofNat n.toNat)).map UInt32.ofNat = _
    rw [natBelow?_ofNat n.toNat_lt, Option.map_some, UInt32.ofNat_toNat]
  plain n := .nat n.toNat

instance : LawfulForm UInt64 where
  ofJson?_toJson n := by
    show (natBelow? UInt64.size (ofNat n.toNat)).map UInt64.ofNat = _
    rw [natBelow?_ofNat n.toNat_lt, Option.map_some, UInt64.ofNat_toNat]
  plain n := .nat n.toNat

instance : LawfulForm Color where
  ofJson?_toJson c := c.ofName?_name
  plain c := .string c.name

instance : LawfulForm Cell where
  ofJson?_toJson c := by
    show (ofJson? (toJson c.bits)).map Cell.mk = _
    rw [LawfulForm.ofJson?_toJson]
    rfl
  plain c := LawfulForm.plain c.bits

theorem mapM_ofJson?_map [LawfulForm α] (xs : List α) : (xs.map toJson).mapM ofJson? = some xs := by
  induction xs with
  | nil => rfl
  | cons x xs ih =>
    rw [List.map_cons, List.mapM_cons, LawfulForm.ofJson?_toJson, ih]
    rfl

instance [LawfulForm α] : LawfulForm (List α) where
  ofJson?_toJson := mapM_ofJson?_map
  plain xs := .array fun v hv => by
    obtain ⟨x, -, rfl⟩ := List.mem_map.mp hv
    exact LawfulForm.plain x

theorem length_mapM_ofJson? {items : List Json} {xs : List α} (h : items.mapM ofJson? = some xs) :
    xs.length = items.length := by
  induction items generalizing xs with
  | nil =>
    cases h
    rfl
  | cons v items ih =>
    rw [List.mapM_cons] at h
    obtain ⟨x, -, hrest⟩ := Option.bind_eq_some_iff.mp h
    obtain ⟨ys, hys, hxs⟩ := Option.bind_eq_some_iff.mp hrest
    cases hxs
    rw [List.length_cons, List.length_cons, ih hys]

/-- A list takes two tokens at the least for each of its elements. -/
theorem length_ofJson?_le {xs : List α} (h : ofJson? v = some xs) :
    2 * xs.length ≤ v.tokens.length := by
  match v, h with
  | .array items, h =>
    rw [length_mapM_ofJson? h]
    exact length_array_le items

/-! ### Records -/

theorem occurrences_record {fields : List (String × Json)} (h : (fields.map (·.1)).Nodup)
    (name : String) : occurrences (fields.map fun (name, v) => (some name, v)) name ≤ 1 := by
  have hcount := List.nodup_iff_count.mp h name
  rw [List.count_eq_countP, List.countP_map] at hcount
  rw [occurrences, List.countP_map]
  refine Nat.le_trans (Nat.le_of_eq (List.countP_congr fun f _ => ?_)) hcount
  simp

theorem member?_record {fields : List (String × Json)} (h : (fields.map (·.1)).Nodup)
    (hv : (name, v) ∈ fields) :
    member? (fields.map fun (name, v) => (some name, v)) name = some v := by
  induction fields with
  | nil => cases hv
  | cons f fields ih =>
    obtain ⟨hf, hfields⟩ := List.nodup_cons.mp h
    rcases List.mem_cons.mp hv with rfl | hv
    · rw [member?, List.map_cons, List.find?_cons_of_pos (by simp)]
      rfl
    · have hne : f.1 ≠ name := by
        rintro rfl
        exact hf (List.mem_map.mpr ⟨_, hv, rfl⟩)
      rw [member?, List.map_cons, List.find?_cons_of_neg (by simpa using hne)]
      exact ih hfields hv

/-- A record whose names differ has all its fields. -/
theorem fields?_record {fields : List (String × Json)} (h : (fields.map (·.1)).Nodup) :
    fields? (fields.map (·.1)) (record fields) = some (fields.map (some ·.2)) := by
  have hnames : (fields.map fun (name, v) => (some name, v)).all (·.1.isSome) = true := by
    simp [List.all_map]
  have honce : (fields.map (·.1)).all
      (occurrences (fields.map fun (name, v) => (some name, v)) · ≤ 1) = true :=
    List.all_eq_true.mpr fun name _ => decide_eq_true (occurrences_record h name)
  rw [record, fields?, hnames, honce, Bool.and_self, if_pos rfl, List.map_map, Option.some.injEq]
  exact List.map_congr_left fun f hf => member?_record h hf

theorem plain_record {fields : List (String × Json)} (h : ∀ f ∈ fields, Plain f.2) :
    Plain (record fields) := by
  refine .object (fun m hm => ?_) (fun m hm => ?_) <;> obtain ⟨f, hf, rfl⟩ := List.mem_map.mp hm
  · rfl
  · exact h f hf

/-- The fields that are found stand in the form. -/
theorem mem_children_of_fields? {names : List String} {found : List (Option Json)}
    (h : fields? names v = some found) (hw : some w ∈ found) : w ∈ v.children := by
  unfold fields? at h
  split at h
  next items =>
    obtain ⟨-, hfound⟩ := Option.ite_none_right_eq_some.mp h
    cases hfound
    rcases List.mem_append.mp hw with hw | hw
    · obtain ⟨u, hu, heq⟩ := List.mem_map.mp hw
      cases heq
      exact hu
    · exact absurd (List.eq_of_mem_replicate hw) (by simp)
  next members =>
    obtain ⟨-, hfound⟩ := Option.ite_none_right_eq_some.mp h
    cases hfound
    obtain ⟨name, -, hmember⟩ := List.mem_map.mp hw
    obtain ⟨m, hm, rfl⟩ := Option.map_eq_some_iff.mp hmember
    exact List.mem_map_of_mem (List.mem_of_find?_eq_some hm)
  next => cases h

end Json
end RemoteScreen
