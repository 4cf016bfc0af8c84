import ImagePipeline.Proofs.EngineStream
import ImagePipeline.Proofs.SerializedForm
import Mathlib.Data.List.Forall2

/-!
# Records of one field

A record is an object or an array of its fields.  An object may have members of other names, which
do not count, but the field once only; it may leave the field out, and an array may be cut off
before it.  Whatever is read of a record with one field depends on that field alone.

* `Says`: what a record says about its only field.
* `readField`: reads a record by its field; `readField_eq_some_iff`.
* `Nullable`: a field that may be left out, or null; `readNullable_eq_some_iff`.
* `Labels.InMap`: the labels in an object with a text under every key; `Labels.ofJson?_eq_some_iff`.
-/

namespace ImagePipeline

namespace Json

variable {members : List (String × Json)} {key : String} {j v : Json} {field : Field} {α : Type}

/-- An object with these members has one of this name only, with this value. -/
def OnlyMember (members : List (String × Json)) (key : String) (v : Json) : Prop :=
  ∃ before after, members = before ++ (key, v) :: after ∧
    ¬ HasMember before key ∧ ¬ HasMember after key

/-- What a record with one field says about it, as an object or as an array of its fields. -/
inductive Says (key : String) : Json → Field → Prop where
  | member {members : List (String × Json)} {v : Json} (hv : OnlyMember members key v) :
      Says key (.object members) (.given v)
  | omitted {members : List (String × Json)} (hkey : ¬ HasMember members key) :
      Says key (.object members) .omitted
  | item (v : Json) : Says key (.array [v]) (.given v)
  | cutOff : Says key (.array []) .cutOff

theorem onlyMember_singleton (key : String) (v : Json) : OnlyMember [(key, v)] key v :=
  ⟨[], [], rfl, nofun, nofun⟩

theorem not_hasMember_iff : ¬ HasMember members key ↔ ∀ m ∈ members, ¬ (m.1 == key) = true := by
  simp only [beq_iff_eq]
  constructor
  · rintro h ⟨_, v⟩ hm rfl
    exact h ⟨v, hm⟩
  · rintro h ⟨v, hm⟩
    exact h _ hm rfl

theorem uniqueMember_eq_some_iff :
    uniqueMember members key = some field ↔ Says key (.object members) field := by
  constructor
  · intro h
    unfold uniqueMember at h
    split at h
    next hfilter =>
      cases h
      exact .omitted (not_hasMember_iff.2 (List.filter_eq_nil_iff.1 hfilter))
    next k v hfilter =>
      cases h
      obtain ⟨before, after, hsplit, hbefore, hkey, hafter⟩ := List.filter_eq_cons_iff.1 hfilter
      obtain rfl : k = key := by simpa using hkey
      exact .member ⟨before, after, hsplit, not_hasMember_iff.2 hbefore,
        not_hasMember_iff.2 (List.filter_eq_nil_iff.1 hafter)⟩
    next => cases h
  · intro h
    cases h with
    | @member _ v hv =>
      obtain ⟨before, after, rfl, hbefore, hafter⟩ := hv
      have hfilter : (before ++ (key, v) :: after).filter (·.1 == key) = [(key, v)] := by
        rw [List.filter_append, List.filter_eq_nil_iff.2 (not_hasMember_iff.1 hbefore),
          List.filter_cons_of_pos (by simp), List.filter_eq_nil_iff.2 (not_hasMember_iff.1 hafter),
          List.nil_append]
      rw [uniqueMember, hfilter]
    | omitted hkey => exact uniqueMember_of_not_hasMember hkey

theorem fields?_eq_some_iff {fields : List Field} :
    fields? [key] j = some fields ↔ ∃ field, Says key j field ∧ fields = [field] := by
  cases j with
  | object members =>
    have hmapM : fields? [key] (.object members) = (uniqueMember members key).map ([·]) := by
      rw [fields?, List.mapM_cons]
      cases uniqueMember members key <;> rfl
    rw [hmapM, Option.map_eq_some_iff]
    exact exists_congr fun field => and_congr uniqueMember_eq_some_iff eq_comm
  | array items =>
    rcases items with _ | ⟨v, _ | ⟨w, rest⟩⟩
    · refine ⟨fun h => ⟨.cutOff, .cutOff, (Option.some.inj h).symm⟩, ?_⟩
      rintro ⟨_, ⟨⟩, rfl⟩
      rfl
    · refine ⟨fun h => ⟨.given v, .item v, (Option.some.inj h).symm⟩, ?_⟩
      rintro ⟨_, ⟨⟩, rfl⟩
      rfl
    · refine ⟨fun h => ?_, ?_⟩
      · rw [fields?, if_neg (by simp)] at h
        cases h
      · rintro ⟨_, ⟨⟩, _⟩
  | null | bool | number | string | illFormed =>
    constructor
    · rintro ⟨⟩
    · rintro ⟨_, ⟨⟩, _⟩

/-- Reads a record with one field. -/
def readField (key : String) (read : Field → Option α) (j : Json) : Option α :=
  (j.fields? [key]).bind fun fields =>
    match fields with
    | [field] => read field
    | _ => none

/-- What is read of a record with one field is read of the field. -/
theorem readField_eq_some_iff {read : Field → Option α} {a : α} :
    readField key read j = some a ↔ ∃ field, Says key j field ∧ read field = some a := by
  simp only [readField, Option.bind_eq_some_iff, fields?_eq_some_iff]
  constructor
  · rintro ⟨_, ⟨field, hfield, rfl⟩, hread⟩
    exact ⟨field, hfield, hread⟩
  · rintro ⟨field, hfield, hread⟩
    exact ⟨_, ⟨field, hfield, rfl⟩, hread⟩

theorem required_text_eq_some_iff {s : String} :
    field.required text? = some s ↔ field = .given (.string s) := by
  cases field with
  | given v => cases v <;> simp [Field.required, text?]
  | omitted | cutOff => simp [Field.required]

/-- A field that may be left out, or null, which makes it the default. -/
inductive Nullable (key : String) (R : Json → α → Prop) (default : α) (j : Json) : α → Prop where
  | value {v : Json} {a : α} (hv : Says key j (.given v)) (ha : R v a) :
      Nullable key R default j a
  | null (hv : Says key j (.given .null)) : Nullable key R default j default
  | omitted (hkey : Says key j .omitted) : Nullable key R default j default

theorem nullable_of_ne_null {read : Json → Option α} (hv : v ≠ .null) :
    (Field.given v).nullable read = (read v).map some := by
  cases v <;> first | exact absurd rfl hv | rfl

/-- What is read of a record whose only field may be left out, or null. -/
theorem readNullable_eq_some_iff {read : Json → Option α} {R : Json → α → Prop} {default a : α}
    (hread : ∀ v a, read v = some a ↔ R v a) (hnull : read .null = none) :
    (readField key (·.nullable read) j).map (·.getD default) = some a ↔
      Nullable key R default j a := by
  simp only [Option.map_eq_some_iff, readField_eq_some_iff]
  constructor
  · rintro ⟨x, ⟨field, hfield, hx⟩, rfl⟩
    cases field with
    | given v =>
      by_cases hv : v = .null
      · subst hv
        cases hx
        exact .null hfield
      · rw [nullable_of_ne_null hv] at hx
        obtain ⟨b, hb, rfl⟩ := Option.map_eq_some_iff.1 hx
        exact .value hfield ((hread v b).1 hb)
    | omitted =>
      cases hx
      exact .omitted hfield
    | cutOff => cases hx
  · rintro (⟨hv, ha⟩ | hv | hkey)
    · have ha := (hread _ a).2 ha
      refine ⟨some a, ⟨_, hv, ?_⟩, rfl⟩
      rw [nullable_of_ne_null (by rintro rfl; cases hnull.symm.trans ha), ha, Option.map_some]
    · exact ⟨none, ⟨_, hv, rfl⟩, rfl⟩
    · exact ⟨none, ⟨_, hkey, rfl⟩, rfl⟩

/-! ## Lists and tables -/

theorem mapM_eq_some_iff {β : Type} {read : α → Option β} {as : List α} {bs : List β} :
    as.mapM read = some bs ↔ List.Forall₂ (fun a b => read a = some b) as bs := by
  induction as generalizing bs with
  | nil =>
    rw [List.mapM_nil]
    constructor
    · rintro ⟨⟩
      exact .nil
    · rintro ⟨⟩
      rfl
  | cons a as ih =>
    rw [List.mapM_cons]
    constructor
    · intro h
      obtain ⟨b, hb, h⟩ := Option.bind_eq_some_iff.1 h
      obtain ⟨bs, hbs, h⟩ := Option.bind_eq_some_iff.1 h
      cases h
      exact .cons hb (ih.1 hbs)
    · rintro (_ | ⟨hb, hbs⟩)
      rw [hb, ih.2 hbs]
      rfl

theorem list_eq_some_iff {read : Json → Option α} {as : List α} :
    list read j = some as ↔
      ∃ items, j = .array items ∧ List.Forall₂ (fun v a => read v = some a) items as := by
  cases j with
  | array items =>
    refine mapM_eq_some_iff.trans ⟨fun h => ⟨items, rfl, h⟩, ?_⟩
    rintro ⟨_, ⟨⟩, h⟩
    exact h
  | null | bool | number | string | object | illFormed => exact ⟨nofun, fun ⟨_, h, _⟩ => nomatch h⟩

theorem table_text_eq_some_iff {entries : List (String × String)} :
    table text? j = some entries ↔ j = .ofTexts entries := by
  cases j with
  | object members =>
    have hentry : ∀ (m : String × Json) (e : String × String),
        (text? m.2).map (m.1, ·) = some e ↔ m = (e.1, .string e.2) := by
      rintro ⟨k, v⟩ ⟨k', value⟩
      cases v <;> simp [text?]
    refine mapM_eq_some_iff.trans ?_
    simp only [hentry]
    rw [ofTexts, object.injEq, ← List.forall₂_map_right_iff, List.forall₂_eq_eq_eq]
  | null | bool | number | string | array | illFormed => exact ⟨nofun, nofun⟩

end Json

namespace Labels

/-- The labels in an object with a text under every key; of several under one key the last
counts. -/
def InMap (j : Json) (ls : Labels) : Prop :=
  ∃ entries, j = .ofTexts entries ∧ ∀ key, ls.get? key = entries.reverse.lookup key

theorem ofJson?_eq_some_iff {j : Json} {ls : Labels} : ofJson? j = some ls ↔ InMap j ls := by
  rw [ofJson?, Option.map_eq_some_iff]
  simp only [Json.table_text_eq_some_iff, InMap]
  refine exists_congr fun entries => and_congr_right fun _ => ⟨?_, fun h => ?_⟩
  · rintro rfl
    exact get?_ofList entries
  · exact ext_get? fun key => (get?_ofList entries key).trans (h key).symm

theorem inMap_toJson (ls : Labels) : InMap ls.toJson ls :=
  ofJson?_eq_some_iff.1 (ofJson?_toJson ls)

end Labels

end ImagePipeline
