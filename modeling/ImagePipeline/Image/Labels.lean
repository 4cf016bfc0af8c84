import ImagePipeline.Image.Kind
import ImagePipeline.Instant.Text
import ImagePipeline.Json.Record
import ImagePipeline.Refusal

/-!
# Image labels

The labels of an image are a finite map from texts to texts. It is kept as a list sorted by key,
so two label sets with the same entries are equal, and the order and repetition of insertions
do not show.

* `Labels.get?_insert`: the last value inserted under a key is the one found.
* `Labels.validate` checks the three labels that a family must carry. Labels that are absent or
  empty are reported together, before the commit date is read.
-/

namespace ImagePipeline

/-- Labels of an image, sorted by key. -/
structure Labels where
  /-- The entries. -/
  toList : List (String × String)
  /-- Keys increase strictly. -/
  sorted : toList.Pairwise fun a b => a.1 < b.1

namespace Labels

@[ext] theorem ext {a b : Labels} (h : a.toList = b.toList) : a = b := by
  cases a; cases b; simp_all

instance : DecidableEq Labels := fun a b =>
  if h : a.toList = b.toList then isTrue (ext h) else isFalse fun e => h (e ▸ rfl)

/-- No labels. -/
def empty : Labels := ⟨[], .nil⟩

instance : Inhabited Labels := ⟨empty⟩

/-- The value of a label. -/
def get? (ls : Labels) (key : String) : Option String :=
  ls.toList.lookup key

/-- Whether there are no labels. -/
def isEmpty (ls : Labels) : Bool :=
  ls.toList.isEmpty

/-- Whether a label is there with a value that is not empty. -/
def hasValue (ls : Labels) (key : String) : Bool :=
  match ls.get? key with
  | some value => !value.isEmpty
  | none => false

/-- Puts an entry in its place, in front of a greater key or over an equal one. -/
def place (key value : String) : List (String × String) → List (String × String)
  | [] => [(key, value)]
  | (k, v) :: rest =>
    if key < k then (key, value) :: (k, v) :: rest
    else if key = k then (key, value) :: rest
    else (k, v) :: place key value rest

theorem mem_place {key value : String} {l : List (String × String)} {e : String × String}
    (h : e ∈ place key value l) : e = (key, value) ∨ e ∈ l := by
  induction l with
  | nil => simpa [place] using h
  | cons x xs ih =>
    rw [place] at h
    split at h
    · simpa using h
    · split at h
      · rcases List.mem_cons.1 h with h | h
        · exact .inl h
        · exact .inr (List.mem_cons_of_mem _ h)
      · rcases List.mem_cons.1 h with h | h
        · exact .inr (h ▸ List.mem_cons_self)
        · exact (ih h).elim .inl fun h => .inr (List.mem_cons_of_mem _ h)

theorem sorted_place (key value : String) {l : List (String × String)}
    (h : l.Pairwise fun a b => a.1 < b.1) :
    (place key value l).Pairwise fun a b => a.1 < b.1 := by
  induction l with
  | nil => simp [place]
  | cons x xs ih =>
    obtain ⟨hx, hxs⟩ := List.pairwise_cons.1 h
    rw [place]
    split
    · next hlt =>
      refine List.pairwise_cons.2 ⟨fun e he => ?_, h⟩
      rcases List.mem_cons.1 he with rfl | he
      · exact hlt
      · exact String.lt_trans hlt (hx e he)
    · next hlt =>
      split
      · next heq =>
        exact List.pairwise_cons.2 ⟨fun e he => heq ▸ hx e he, hxs⟩
      · next hne =>
        refine List.pairwise_cons.2 ⟨fun e he => ?_, ih hxs⟩
        rcases mem_place he with rfl | he
        · exact String.not_le.1 fun hle =>
            hne (String.le_antisymm hle (String.not_lt.1 hlt))
        · exact hx e he

/-- The labels with one more entry; an entry with the same key gives way. -/
def insert (ls : Labels) (key value : String) : Labels :=
  ⟨place key value ls.toList, sorted_place key value ls.sorted⟩

theorem lookup_cons_eq_ite (k a b : String) (l : List (String × String)) :
    ((a, b) :: l).lookup k = if k = a then some b else l.lookup k := by
  by_cases h : k = a
  · simp [h]
  · simp [List.lookup_cons, beq_eq_false_iff_ne.2 h, h]

theorem lookup_place (key value : String) (l : List (String × String)) (k : String) :
    (place key value l).lookup k = if k = key then some value else l.lookup k := by
  induction l with
  | nil => simp only [place, lookup_cons_eq_ite]
  | cons x xs ih =>
    obtain ⟨a, b⟩ := x
    rw [place]
    split
    · simp only [lookup_cons_eq_ite]
    · split
      · next heq =>
        subst heq
        simp only [lookup_cons_eq_ite]
        split <;> rfl
      · next hne =>
        simp only [lookup_cons_eq_ite, ih]
        split
        · next h => rw [if_neg (h ▸ Ne.symm hne)]
        · rfl

/-- The value found is the last one inserted. -/
@[simp] theorem get?_insert (ls : Labels) (key value k : String) :
    (ls.insert key value).get? k = if k = key then some value else ls.get? k :=
  lookup_place key value ls.toList k

@[simp] theorem get?_empty (key : String) : empty.get? key = none := rfl

/-- The labels of a list of entries; of several with one key the last counts. -/
def ofList (entries : List (String × String)) : Labels :=
  entries.foldl (fun ls e => ls.insert e.1 e.2) empty

/-- The JSON form of labels. -/
def toJson (ls : Labels) : Json :=
  .object (ls.toList.map fun (key, value) => (key, .string value))

/-- The labels of a JSON form. -/
def ofJson? (j : Json) : Option Labels :=
  (j.table Json.text?).map ofList

end Labels

/-- The labels of an image that has all its family requires. -/
structure ValidLabels where
  /-- The label keys of the family. -/
  keys : LabelKeys
  /-- The source commit. -/
  commit : String
  /-- The author date of the commit. -/
  commitDate : Instant
  /-- The hash of the build recipe. -/
  recipeHash : String
deriving DecidableEq, Repr

namespace Labels

/-- The required keys that are absent or empty, in the order of reports. -/
def missing (ls : Labels) (keys : LabelKeys) : List String :=
  keys.all.filter fun key => !ls.hasValue key

/-- The valid labels of an image of a family; `image` names it in refusals. -/
def validate (ls : Labels) (family : Family) (image : String) : Except Refusal ValidLabels :=
  let keys := family.labelKeys
  match ls.missing keys with
  | [] =>
    let text key := (ls.get? key).getD ""
    match Instant.read? (text keys.commitDate) with
    | some date => .ok ⟨keys, text keys.commit, date, text keys.recipeHash⟩
    | none => .error (.badCommitDate image (text keys.commitDate))
  | missing => .error (.missingLabels image missing)

end Labels

end ImagePipeline
