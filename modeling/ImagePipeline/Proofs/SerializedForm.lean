import ImagePipeline.BuildOutcome
import ImagePipeline.Image.Labels
import ImagePipeline.Proofs.JsonText
import ImagePipeline.PullRequest.Action
import ImagePipeline.PullRequest.Mergeability
import ImagePipeline.PullRequest.Trigger
import Mathlib.Data.List.Induction

/-!
# Serialized forms

The vocabularies of the pipeline and the labels of images have a form in JSON.  Each of them is got
back from the text of its form.  Vocabularies that take any name have a value for those that are not
theirs, and of labels that are given more than once the last counts; so a text may change when it
is read and written, but not what it is read as.

* `Json.RoundTrips`: values are got back from what is written of them.
* `Labels.get?_ofList`: the value of a label is the last one given.
* `Labels.ofList_of_perm`: the order in which labels are given does not matter.
* `serialized_roundTrips`: all forms round-trip.
-/

namespace ImagePipeline

open PullRequest (Action Mergeability Trigger)

namespace Json

variable {α : Type} {write : α → Json} {read : Json → Option α}

/-- What a JSON text is read as. -/
def readText (read : Json → Option α) (text : String) : Option α :=
  (parse? text).bind read

/-- Values are got back from the texts written of them, and what was read from any text is read
again from the text written of it. -/
structure RoundTrips (write : α → Json) (read : Json → Option α) : Prop where
  read_write : ∀ a, readText read (write a).render = some a
  read_again : ∀ text a, readText read text = some a → readText read (write a).render = some a

/-- Forms without numbers round-trip if the reader inverts the writer. -/
theorem RoundTrips.of_isTextual (htextual : ∀ a, (write a).isTextual = true)
    (hread : ∀ a, read (write a) = some a) : RoundTrips write read := by
  have hback : ∀ a, readText read (write a).render = some a := by
    intro a
    rw [readText, parse?_render (htextual a), Option.bind_some, hread]
  exact ⟨hback, fun _ a _ => hback a⟩

/-- The JSON forms of a name: a string, or an object with the name for its only key and nothing
below it. -/
def IsName (name : String) (j : Json) : Prop := j = .string name ∨ j = .object [(name, .null)]

theorem enumeration_of_isName {read : String → Option α} {name : String} {j : Json}
    (h : IsName name j) : j.enumeration read = read name := by
  rcases h with rfl | rfl <;> rfl

/-- An object with a string under every key. -/
def ofTexts (entries : List (String × String)) : Json :=
  .object (entries.map fun (key, value) => (key, .string value))

theorem isTextual_ofTexts (entries : List (String × String)) :
    (ofTexts entries).isTextual = true := by
  show haveTextual _ = true
  induction entries with
  | nil => rfl
  | cons e es ih => exact ih

end Json

namespace Labels

variable {a b ls : Labels} {entries : List (String × String)} {key value : String}

/-! ## Labels as entries -/

/-- With distinct keys, looking up finds exactly the entries. -/
theorem lookup_eq_some_iff_mem (h : entries.Pairwise fun a b => a.1 ≠ b.1) :
    entries.lookup key = some value ↔ (key, value) ∈ entries := by
  induction entries with
  | nil => simp
  | cons e es ih =>
    obtain ⟨k, v⟩ := e
    obtain ⟨hk, hes⟩ := List.pairwise_cons.1 h
    rw [lookup_cons_eq_ite, List.mem_cons, Prod.mk.injEq]
    split
    next heq =>
      subst heq
      have hno : (key, value) ∉ es := fun hmem => hk _ hmem rfl
      simp [hno, eq_comm]
    next hne => simp [ih hes, hne]

theorem pairwise_ne (ls : Labels) : ls.toList.Pairwise fun a b => a.1 ≠ b.1 := by
  refine ls.sorted.imp fun {a b} (h : a.1 < b.1) (heq : a.1 = b.1) => ?_
  rw [heq] at h
  exact String.lt_irrefl _ h

theorem get?_eq_some_iff : ls.get? key = some value ↔ (key, value) ∈ ls.toList :=
  lookup_eq_some_iff_mem ls.pairwise_ne

/-- Labels are equal if the same value is found under every key. -/
theorem ext_get? (h : ∀ key, a.get? key = b.get? key) : a = b := by
  have hnodup (ls : Labels) : ls.toList.Nodup :=
    ls.pairwise_ne.imp fun {x y} (hne : x.1 ≠ y.1) (heq : x = y) => hne (congrArg Prod.fst heq)
  have hperm : a.toList.Perm b.toList := by
    refine (List.perm_ext_iff_of_nodup (hnodup a) (hnodup b)).2 fun e => ?_
    rw [← get?_eq_some_iff, ← get?_eq_some_iff, h]
  refine ext (hperm.eq_of_pairwise ?_ a.sorted b.sorted)
  exact fun x y _ _ hxy hyx => absurd (String.lt_trans hxy hyx) (String.lt_irrefl _)

/-- The value of a label is the last one given. -/
theorem get?_ofList (entries : List (String × String)) (key : String) :
    (ofList entries).get? key = entries.reverse.lookup key := by
  induction entries using List.reverseRecOn with
  | nil => rfl
  | append_singleton es e ih =>
    have hlast : ofList (es ++ [e]) = (ofList es).insert e.1 e.2 := by simp [ofList]
    rw [hlast, get?_insert, List.reverse_append, List.reverse_singleton, List.singleton_append,
      lookup_cons_eq_ite, ih]

/-- Labels are made of their entries, in whatever order these are given. -/
theorem ofList_of_perm (h : entries.Perm ls.toList) : ofList entries = ls := by
  have hne : entries.reverse.Pairwise fun a b => a.1 ≠ b.1 :=
    ls.pairwise_ne.perm (entries.reverse_perm.trans h).symm fun h => h.symm
  refine ext_get? fun key => Option.ext fun value => ?_
  rw [get?_ofList, lookup_eq_some_iff_mem hne, get?_eq_some_iff, List.mem_reverse, h.mem_iff]

theorem ofJson?_ofTexts (entries : List (String × String)) :
    ofJson? (.ofTexts entries) = some (ofList entries) := by
  have htable : (Json.ofTexts entries).table Json.text? = some entries := by
    show (entries.map fun (key, value) => (key, Json.string value)).mapM _ = some entries
    induction entries with
    | nil => rfl
    | cons e es ih => rw [List.map_cons, List.mapM_cons, ih]; rfl
  rw [ofJson?, htable, Option.map_some]

theorem ofJson?_toJson (ls : Labels) : ofJson? ls.toJson = some ls :=
  (ofJson?_ofTexts ls.toList).trans (congrArg some (ofList_of_perm (List.Perm.refl _)))

end Labels

/-! ## The forms -/

theorem ImageKind.roundTrips : Json.RoundTrips toJson ofJson? :=
  .of_isTextual (fun _ => rfl) ofName_name

theorem Family.roundTrips : Json.RoundTrips toJson ofJson? :=
  .of_isTextual (fun _ => rfl) fun f => by cases f <;> rfl

theorem BuildOutcome.roundTrips : Json.RoundTrips toJson ofJson? :=
  .of_isTextual (fun _ => rfl) fun o => by cases o <;> rfl

/-- A name that no outcome has in its form is that of the unknown outcome. -/
theorem BuildOutcome.ofJson?_of_isName {name : String} {j : Json} (hj : j.IsName name)
    (hname : ∀ o : BuildOutcome, o.tag ≠ name) : ofJson? j = some unknown := by
  rw [ofJson?, Json.enumeration_of_isName hj, List.find?_eq_none.2, Option.getD_none]
  exact fun o _ => by simpa using hname o

theorem Labels.roundTrips : Json.RoundTrips toJson ofJson? :=
  .of_isTextual (fun ls => Json.isTextual_ofTexts ls.toList) ofJson?_toJson

namespace PullRequest

theorem Mergeability.roundTrips : Json.RoundTrips toJson ofJson? :=
  .of_isTextual (fun _ => rfl) fun m => congrArg some (ofName_name m)

/-- A name that no state has is that of the unknown state. -/
theorem Mergeability.ofJson?_of_isName {name : String} {j : Json} (hj : j.IsName name)
    (hname : ∀ m : Mergeability, m.name ≠ name) : ofJson? j = some unknown := by
  rw [ofJson?, Json.enumeration_of_isName hj, ofName, List.find?_eq_none.2, Option.getD_none]
  exact fun m _ => by simpa using hname m

theorem Action.roundTrips : Json.RoundTrips toJson ofJson? :=
  .of_isTextual (fun a => by cases a <;> rfl) fun a => by cases a <;> rfl

theorem Trigger.roundTrips : Json.RoundTrips toJson ofJson? :=
  .of_isTextual (fun t => by cases t <;> rfl) fun t => by cases t <;> rfl

end PullRequest

/-- **Serialized forms.**  Every value of a vocabulary and all labels are got back from the texts of
their forms, labels in whatever order they are written.  A name that is not one of a state of
mergeability, or of an outcome, is read as the unknown one, and a label that is repeated keeps its
last value. -/
theorem serialized_roundTrips :
    Json.RoundTrips ImageKind.toJson ImageKind.ofJson? ∧
    Json.RoundTrips Family.toJson Family.ofJson? ∧
    Json.RoundTrips Mergeability.toJson Mergeability.ofJson? ∧
    Json.RoundTrips BuildOutcome.toJson BuildOutcome.ofJson? ∧
    Json.RoundTrips Action.toJson Action.ofJson? ∧
    Json.RoundTrips Trigger.toJson Trigger.ofJson? ∧
    Json.RoundTrips Labels.toJson Labels.ofJson? ∧
    (∀ (ls : Labels) (entries : List (String × String)), entries.Perm ls.toList →
      Json.readText Labels.ofJson? (Json.ofTexts entries).render = some ls) ∧
    (∀ (text name : String) (j : Json), Json.parse? text = some j → j.IsName name →
      ((∀ m : Mergeability, m.name ≠ name) →
        Json.readText Mergeability.ofJson? text = some .unknown) ∧
      ((∀ o : BuildOutcome, o.tag ≠ name) →
        Json.readText BuildOutcome.ofJson? text = some .unknown)) ∧
    ∀ (text : String) (entries : List (String × String)),
      Json.parse? text = some (Json.ofTexts entries) →
      ∃ ls, Json.readText Labels.ofJson? text = some ls ∧
        ∀ key, ls.get? key = entries.reverse.lookup key := by
  refine ⟨ImageKind.roundTrips, Family.roundTrips, Mergeability.roundTrips, BuildOutcome.roundTrips,
    Action.roundTrips, Trigger.roundTrips, Labels.roundTrips, ?_, ?_, ?_⟩
  · intro ls entries hperm
    rw [Json.readText, Json.parse?_render (Json.isTextual_ofTexts entries), Option.bind_some,
      Labels.ofJson?_ofTexts, Labels.ofList_of_perm hperm]
  · intro text name j hparse hj
    rw [Json.readText, Json.readText, hparse, Option.bind_some, Option.bind_some]
    exact ⟨Mergeability.ofJson?_of_isName hj, BuildOutcome.ofJson?_of_isName hj⟩
  · intro text entries hparse
    refine ⟨Labels.ofList entries, ?_, Labels.get?_ofList entries⟩
    rw [Json.readText, hparse, Option.bind_some, Labels.ofJson?_ofTexts]

/-- A label that is given twice, and a state that has no such name. -/
theorem serialized_roundTrips_repeated :
    (∃ ls, Json.readText Labels.ofJson? (Json.ofTexts [("a", "1"), ("a", "2")]).render = some ls ∧
      ls.get? "a" = some "2") ∧
    Json.readText Mergeability.ofJson? (Json.string "stalled").render = some .unknown := by
  obtain ⟨-, -, -, -, -, -, -, -, hname, hlabels⟩ := serialized_roundTrips
  constructor
  · obtain ⟨ls, hread, hget⟩ := hlabels _ _ (Json.parse?_render (Json.isTextual_ofTexts _))
    exact ⟨ls, hread, (hget "a").trans (by decide)⟩
  · have hparse : Json.parse? (Json.string "stalled").render = some (.string "stalled") :=
      Json.parse?_render rfl
    exact (hname _ "stalled" _ hparse (.inl rfl)).1 fun m => by cases m <;> decide

end ImagePipeline
