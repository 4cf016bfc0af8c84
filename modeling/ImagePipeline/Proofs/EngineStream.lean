import ImagePipeline.Engine.Client

/-!
# Streams of the engine

A stream is a list of objects.  One with an `error` ends it; of the others the details of an error
and the output are read.

* `Body.values?`: the values of a stream that has come to its end, whichever way it is written;
  by `EngineMessage.ofReply_eq_ofValues` both ways are read alike.
* `Json.uniqueMember_of_mem`, `Json.uniqueMember_of_not_hasMember`: in an object that has no name
  twice, a field is given or left out.
* `EngineMessage.IsSent`: the objects that the engine sends, by the types of their members.
* `EngineMessage.ofValues_snd_eq_none_iff`, `EngineMessage.faultless_iff`: a stream ends well, and
  is without details of errors, if each of its values lets it.
-/

namespace ImagePipeline

namespace Json

/-- An object with these members has one of this name. -/
def HasMember (members : List (String × Json)) (key : String) : Prop :=
  ∃ j, (key, j) ∈ members

variable {members : List (String × Json)} {key : String} {j : Json}

theorem uniqueMember_of_not_hasMember (h : ¬ HasMember members key) :
    uniqueMember members key = some .omitted := by
  have hfilter : members.filter (·.1 == key) = [] := by
    refine List.filter_eq_nil_iff.2 fun member hmember hname => h ⟨member.2, ?_⟩
    rw [← beq_iff_eq.1 hname]
    exact hmember
  rw [uniqueMember, hfilter]

theorem uniqueMember_of_mem (h : members.Pairwise fun a b => a.1 ≠ b.1)
    (hmember : (key, j) ∈ members) : uniqueMember members key = some (.given j) := by
  have hfilter : members.filter (·.1 == key) = [(key, j)] := by
    induction members with
    | nil => cases hmember
    | cons member members ih =>
      obtain ⟨hdistinct, hmembers⟩ := List.pairwise_cons.1 h
      rcases List.mem_cons.1 hmember with rfl | hmember
      · have hrest : members.filter (·.1 == key) = [] := by
          refine List.filter_eq_nil_iff.2 fun other hother hname => ?_
          exact hdistinct other hother (beq_iff_eq.1 hname).symm
        rw [List.filter_cons_of_pos (by simp), hrest]
      · have hother : ¬ (member.1 == key) = true := by simpa using hdistinct _ hmember
        rw [List.filter_cons, if_neg hother, ih hmembers hmember]
  rw [uniqueMember, hfilter]

/-- A field that holds a text if it is there at all. -/
theorem exists_nullable_text (h : members.Pairwise fun a b => a.1 ≠ b.1)
    (htext : ∀ j, (key, j) ∈ members → ∃ text, j = .string text) :
    ∃ field text, uniqueMember members key = some field ∧
      field.nullable Json.text? = some text := by
  by_cases hhas : HasMember members key
  · obtain ⟨j, hmember⟩ := hhas
    obtain ⟨text, rfl⟩ := htext j hmember
    exact ⟨_, some text, uniqueMember_of_mem h hmember, rfl⟩
  · exact ⟨_, none, uniqueMember_of_not_hasMember hhas, rfl⟩

end Json

namespace EngineMessage

open Json (HasMember)

/-! ## Objects -/

/-- An object that the engine may send, by its members: no name twice, and under the names that are
looked at values of the types that the engine gives them. -/
structure IsSent (members : List (String × Json)) : Prop where
  distinct : members.Pairwise fun a b => a.1 ≠ b.1
  error : ∀ j, ("error", j) ∈ members → ∃ text, j = .string text
  errorDetail : ∀ j, ("errorDetail", j) ∈ members → ∃ details, j = .object details
  stream : ∀ j, ("stream", j) ∈ members → ∃ text, j = .string text
  status : ∀ j, ("status", j) ∈ members → ∃ text, j = .string text

variable {members : List (String × Json)}

theorem IsSent.errorOf?_eq_none_iff (h : IsSent members) :
    errorOf? (.object members) = none ↔ ¬ HasMember members "error" := by
  show (members.reverse.lookup "error").bind Json.text? = none ↔ _
  cases hlookup : members.reverse.lookup "error" with
  | none =>
    have hnone := List.lookup_eq_none_iff.1 hlookup
    refine ⟨fun _ => ?_, fun _ => rfl⟩
    rintro ⟨j, hmember⟩
    have hne := hnone _ (List.mem_reverse.2 hmember)
    simp at hne
  | some j =>
    obtain ⟨before, after, hsplit, -⟩ := List.lookup_eq_some_iff.1 hlookup
    have hmember : ("error", j) ∈ members := by
      rw [← List.mem_reverse, hsplit]
      simp
    obtain ⟨text, rfl⟩ := h.error j hmember
    exact ⟨nofun, fun hno => absurd ⟨_, hmember⟩ hno⟩

/-- Whether an object that the engine sends is a message depends on the details of an error only. -/
theorem IsSent.ofJson?_eq (h : IsSent members) {field : Json.Field}
    (hfield : Json.uniqueMember members "errorDetail" = some field) :
    ∃ stream status, ofJson? (.object members) =
      (field.nullable readDetail).map fun detail => ⟨detail, stream, status⟩ := by
  obtain ⟨streamField, stream, hstream, hstream'⟩ := Json.exists_nullable_text h.distinct h.stream
  obtain ⟨statusField, status, hstatus, hstatus'⟩ := Json.exists_nullable_text h.distinct h.status
  have hfields : Json.fields? ["errorDetail", "stream", "status"] (.object members) =
      some [field, streamField, statusField] := by
    simp [Json.fields?, hfield, hstream, hstatus]
  refine ⟨stream, status, ?_⟩
  unfold ofJson?
  rw [hfields]
  cases hread : field.nullable readDetail <;> simp [hread, hstream', hstatus']

/-- It is a message without details of an error exactly if it has none. -/
theorem IsSent.exists_message_iff (h : IsSent members) :
    (∃ m, ofJson? (.object members) = some m ∧ m.errorDetail = none) ↔
      ¬ HasMember members "errorDetail" := by
  constructor
  · rintro ⟨m, hread, hnone⟩ ⟨j, hmember⟩
    obtain ⟨details, rfl⟩ := h.errorDetail j hmember
    obtain ⟨stream, status, hobject⟩ :=
      h.ofJson?_eq (Json.uniqueMember_of_mem h.distinct hmember)
    have hgiven : (Json.Field.given (.object details)).nullable readDetail =
        (readDetail (.object details)).map some := rfl
    rw [hread, hgiven] at hobject
    cases hdetails : readDetail (.object details) with
    | none => simp [hdetails] at hobject
    | some detail =>
      simp only [hdetails, Option.map_some, Option.some.injEq] at hobject
      simp [hobject] at hnone
  · intro hno
    obtain ⟨stream, status, hobject⟩ :=
      h.ofJson?_eq (Json.uniqueMember_of_not_hasMember hno)
    exact ⟨⟨none, stream, status⟩, hobject, rfl⟩

/-- It is a message at all exactly if the details can be read. -/
theorem IsSent.isSome_ofJson?_iff (h : IsSent members) :
    (ofJson? (.object members)).isSome ↔
      ∀ j, ("errorDetail", j) ∈ members → (readDetail j).isSome := by
  by_cases hhas : HasMember members "errorDetail"
  · obtain ⟨j, hmember⟩ := hhas
    obtain ⟨details, rfl⟩ := h.errorDetail j hmember
    have hunique := Json.uniqueMember_of_mem h.distinct hmember
    obtain ⟨stream, status, hobject⟩ := h.ofJson?_eq hunique
    have hgiven : (Json.Field.given (.object details)).nullable readDetail =
        (readDetail (.object details)).map some := rfl
    rw [hobject, hgiven, Option.isSome_map, Option.isSome_map]
    refine ⟨fun hread j' hmember' => ?_, fun hread => hread _ hmember⟩
    have hsame := hunique.symm.trans (Json.uniqueMember_of_mem h.distinct hmember')
    cases hsame
    exact hread
  · obtain ⟨m, hread, -⟩ := h.exists_message_iff.2 hhas
    rw [hread]
    exact ⟨fun _ j hmember => absurd ⟨j, hmember⟩ hhas, fun _ => rfl⟩

/-! ## Streams -/

/-- A stream that has come to its end does so well if none of its values ends it before. -/
theorem ofValues_snd_eq_none_iff {js : List Json} :
    (ofValues true js).2 = none ↔ ∀ j ∈ js, errorOf? j = none ∧ (ofJson? j).isSome := by
  induction js with
  | nil => simp [ofValues]
  | cons j js ih =>
    rw [List.forall_mem_cons, ← ih, ofValues]
    cases errorOf? j with
    | some text => simp
    | none =>
      cases ofJson? j with
      | none => simp
      | some m => simp

/-- If moreover no message has details of an error, then each value is a message without any. -/
theorem faultless_iff {js : List Json} :
    ((ofValues true js).2 = none ∧ ∀ m ∈ (ofValues true js).1, m.errorDetail = none) ↔
      ∀ j ∈ js, errorOf? j = none ∧ ∃ m, ofJson? j = some m ∧ m.errorDetail = none := by
  induction js with
  | nil => simp [ofValues]
  | cons j js ih =>
    rw [List.forall_mem_cons, ← ih, ofValues]
    cases errorOf? j with
    | some text => simp
    | none =>
      cases ofJson? j with
      | none => simp
      | some m => simp [and_left_comm]

end EngineMessage

/-! ## Two ways to write a stream -/

/-- The values of a stream that has come to its end. -/
def Body.values? : Body → Option (List Json)
  | .stream values true => some values
  | .stream _ false => none
  | .text s => ((Text.split '\n' s).filter (· ≠ "")).mapM Json.parse?

namespace EngineMessage

/-- Values that stand on lines are read as if they came by themselves. -/
theorem ofLines_eq_ofValues {lines : List String} {js : List Json}
    (h : (lines.filter (· ≠ "")).mapM Json.parse? = some js) :
    ofLines lines = ofValues true js := by
  induction lines generalizing js with
  | nil =>
    cases h
    rfl
  | cons line lines ih =>
    rw [ofLines]
    by_cases hempty : line = ""
    · rw [if_pos hempty]
      exact ih (by simpa [hempty] using h)
    · rw [if_neg hempty]
      rw [List.filter_cons_of_pos (by simpa using hempty), List.mapM_cons] at h
      obtain ⟨j, hline, h⟩ := Option.bind_eq_some_iff.1 h
      obtain ⟨rest, hrest, h⟩ := Option.bind_eq_some_iff.1 h
      cases h
      rw [hline, ofValues, ih hrest]

theorem ofReply_eq_ofValues {reply : Reply} {js : List Json} (h : reply.body.values? = some js) :
    ofReply reply = ofValues true js := by
  unfold ofReply
  unfold Body.values? at h
  cases hbody : reply.body with
  | text s =>
    rw [hbody] at h
    exact ofLines_eq_ofValues h
  | stream values complete =>
    rw [hbody] at h
    cases complete with
    | true =>
      cases h
      rfl
    | false => cases h

end EngineMessage

end ImagePipeline
